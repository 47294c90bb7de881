import ScriptEngine.Error
import ScriptEngine.Code.Chunk
import ScriptEngine.Code.Pool

/-!
# Emitting code

Writes instructions behind each other, with their operands checked against what an operand can hold.
Constants and names go to the pool of the unit, and every byte gets the line of the current source
position. An operation that fails leaves behind what it had done before it failed.
-/

namespace ScriptEngine

/-- Code under construction. -/
structure Emitter where
  /-- The code of the function so far. -/
  chunk : Chunk := {}
  /-- The constants of the whole unit so far. -/
  pool : Pool := {}
  /-- The source position of what is emitted next. -/
  span : Span := Span.none
  deriving Inhabited

/-- An emitting computation: it extends the code, or fails. -/
abbrev Emit (α : Type) : Type := EStateM CompileError Emitter α

/-- The offset of the operand of a forward jump that awaits its target. -/
structure JumpLabel where
  /-- Where the operand stands. -/
  offset : Nat
  deriving DecidableEq, Repr, Inhabited

namespace Emitter

/-! ## Bytes and positions -/

/-- Sets the source position of what follows; an unknown position changes nothing. -/
def setSpan (span : Span) : Emit Unit :=
  modify fun e => if span.isUnknown then e else { e with span }

/-- The source line of what is emitted next. -/
def line (e : Emitter) : UInt32 := e.span.line

/-- The offset of what is emitted next. -/
def offset (e : Emitter) : Nat := e.chunk.size

/-- Fails for want of a resource. -/
def exceeded {α : Type} (resource : Resource) : Emit α := do
  throw (.limitExceeded resource (← get).span)

/-- Checks a number against what an operand for the resource can hold. -/
def checked (n : Nat) (resource : Resource) : Emit Nat :=
  if n ≤ resource.limit then pure n else exceeded resource

/-- Emits an opcode without operands. -/
def op (op : Opcode) : Emit Unit :=
  modify fun e => { e with chunk := e.chunk.writeOp op e.line }

/-- Emits a one-byte operand. -/
def byteOperand (b : UInt8) : Emit Unit :=
  modify fun e => { e with chunk := e.chunk.writeByte b e.line }

/-- Emits a two-byte operand. -/
def shortOperand (n : UInt16) : Emit Unit :=
  modify fun e => { e with chunk := e.chunk.writeShort n e.line }

/-- Emits an opcode with a one-byte operand. -/
def opByte (o : Opcode) (b : UInt8) : Emit Unit := do
  op o
  byteOperand b

/-- Emits an opcode with a two-byte operand. -/
def opShort (o : Opcode) (n : UInt16) : Emit Unit := do
  op o
  shortOperand n

/-- Emits an opcode whose two-byte operand counts the resource. -/
def opIndex (o : Opcode) (n : Nat) (resource : Resource) : Emit Unit := do
  let n ← checked n resource
  opShort o n.toUInt16

/-! ## Constants -/

/-- The index of a constant, which joins the pool even if its index is too large. -/
def constantIndex (c : Constant) : Emit Nat := do
  let e ← get
  let (i, pool) := e.pool.add c
  set { e with pool }
  checked i .constants

/-- Emits a constant. -/
def constant (c : Constant) : Emit Unit := do
  let i ← constantIndex c
  opShort .constant i.toUInt16

/-- Emits a number. -/
def number (n : Number) : Emit Unit := constant (.number n)

/-- Emits a text. -/
def string (s : String) : Emit Unit := constant (.string s)

/-- Emits a truth value. -/
def bool (b : Bool) : Emit Unit := op (if b then .pushTrue else .pushFalse)

/-- The index of a name. -/
def nameIndex (name : String) : Emit Nat := constantIndex (.string name)

/-- Emits an opcode with a name. -/
def opName (o : Opcode) (name : String) : Emit Unit := do
  let i ← nameIndex name
  opShort o i.toUInt16

/-! ## Variables and calls -/

/-- Emits the reading of a local slot. -/
def loadLocal (slot : Nat) : Emit Unit := opIndex .getLocal slot .localSlots

/-- Emits the writing of a local slot. -/
def storeLocal (slot : Nat) : Emit Unit := opIndex .setLocal slot .localSlots

/-- Emits an access to a slot of an environment further up. -/
def env (o : Opcode) (depth slot : Nat) : Emit Unit := do
  let depth ← checked depth .environmentDepth
  let slot ← checked slot .environmentSlots
  opByte o depth.toUInt8
  shortOperand slot.toUInt16

/-- Emits the reading of an environment slot. -/
def loadEnv (depth slot : Nat) : Emit Unit := env .getEnv depth slot

/-- Emits the writing of an environment slot. -/
def storeEnv (depth slot : Nat) : Emit Unit := env .setEnv depth slot

/-- Emits an operation that goes through a call site. -/
def site (o : Opcode) (index : Nat) : Emit Unit := opIndex o index .callSites

/-- Emits a call of any value. -/
def call (argc : Nat) : Emit Unit := do
  let argc ← checked argc .callArguments
  opByte .call argc.toUInt8

/-- Emits a call of a name that is looked up along the environments. -/
def callName (name : String) (argc : Nat) : Emit Unit := do
  let argc ← checked argc .callArguments
  opName .callName name
  byteOperand argc.toUInt8

/-- Emits the making of a function. -/
def closure (index : Nat) : Emit Unit := opIndex .closure index .functions

/-! ## Jumps -/

/-- Emits a forward jump that awaits its target. -/
def jump (o : Opcode) : Emit JumpLabel :=
  modifyGet fun e =>
    let (offset, chunk) := e.chunk.writeJump o e.line
    (⟨offset⟩, { e with chunk })

/-- Lets a forward jump land here. -/
def patch (label : JumpLabel) : Emit Unit := do
  let e ← get
  match e.chunk.patchJump label.offset with
  | .ok chunk => set { e with chunk }
  | .error _ => exceeded .jumpDistance

/-- Emits a backward jump. -/
def loop (target : Nat) : Emit Unit := do
  let e ← get
  let (chunk, outcome) := e.chunk.writeLoop target e.line
  set { e with chunk }
  match outcome with
  | .ok _ => pure ()
  | .error _ => exceeded .loopBody

end Emitter

end ScriptEngine
