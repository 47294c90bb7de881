import ScriptEngine.Error
import ScriptEngine.Code.Unit
import ScriptEngine.Syntax.Operator

/-!
# Instructions

An instruction as the machine executes it: the operands have been read, constants, names and call sites
have been looked up, and distances have become offsets. Reading fails on malformed code, and everything
that can be malformed about one instruction alone is found here.
-/

namespace ScriptEngine

/-- An instruction with its operands. -/
inductive Instruction where
  /-- Push a value. -/
  | push (v : Value)
  /-- Drop the top. -/
  | pop
  /-- Push the top once more. -/
  | dup
  /-- Push a local. -/
  | getLocal (slot : Nat)
  /-- Store the top in a local. -/
  | setLocal (slot : Nat)
  /-- Push an environment slot. -/
  | getEnv (depth slot : Nat)
  /-- Store the top in an environment slot. -/
  | setEnv (depth slot : Nat)
  /-- Push a property of the global object. -/
  | getGlobal (name : String)
  /-- Store the top in a property of the global object. -/
  | setGlobal (name : String)
  /-- Remove a property of the global object. -/
  | deleteGlobal (name : String)
  /-- Push what a name stands for along the environments. -/
  | getName (name : String)
  /-- Store the top in what a name stands for along the environments. -/
  | setName (name : String)
  /-- Call what a name stands for along the environments. -/
  | callName (name : String) (argc : Nat)
  /-- Remove what a name stands for along the environments. -/
  | deleteName (name : String)
  /-- Replace an object by its property. -/
  | getMember (index : Nat) (site : CallSite)
  /-- Store the top in a property of the object below. -/
  | setMember (index : Nat) (site : CallSite)
  /-- Remove a property of an object. -/
  | deleteMember (name : String)
  /-- Call a function that was read from a global. -/
  | callGlobal (index : Nat) (site : CallSite)
  /-- Call a property of an object on it. -/
  | invokeMember (index : Nat) (site : CallSite)
  /-- Call any value. -/
  | call (argc : Nat)
  /-- Push a function over the current environment. -/
  | closure (index : Nat)
  /-- Push a new object. -/
  | newObject
  /-- Define a property of the object below the top. -/
  | initProperty (name : String)
  /-- Push the receiver. -/
  | getThis
  /-- Push the running function. -/
  | getCallee
  /-- Apply a binary operator. -/
  | binary (op : BinaryOp)
  /-- Apply unary `-`. -/
  | negate
  /-- Apply unary `+`. -/
  | plus
  /-- Apply `!`. -/
  | not
  /-- Apply `typeof`. -/
  | typeof
  /-- Go on at an offset. -/
  | jump (target : Nat)
  /-- Drop the top, and go on at an offset if it is false. -/
  | jumpIfFalse (target : Nat)
  /-- Go on at an offset if the top is false, else drop it. -/
  | jumpIfFalseOrPop (target : Nat)
  /-- Go on at an offset if the top is true, else drop it. -/
  | jumpIfTrueOrPop (target : Nat)
  /-- Push an object onto the chain of environments. -/
  | enterWith
  /-- Take that object off the chain. -/
  | exitWith
  /-- Install a handler that goes on at an offset. -/
  | tryBegin (target : Nat)
  /-- Remove the innermost handler. -/
  | tryEnd
  /-- Raise the top. -/
  | throw
  /-- Return the top. -/
  | ret
  /-- Return `undefined`. -/
  | retUndefined
  deriving DecidableEq, Inhabited

/-! ## Operands -/

namespace Chunk

/-- The one-byte operand at an offset. -/
def byteOperand (c : Chunk) (offset : Nat) : Except Fault Nat :=
  match c.byte? offset with
  | some b => .ok b.toNat
  | none => .error (.truncatedOperand offset)

/-- The two-byte operand at an offset. -/
def shortOperand (c : Chunk) (offset : Nat) : Except Fault Nat :=
  match c.short? offset with
  | some n => .ok n.toNat
  | none => .error (.truncatedOperand offset)

/-- Where the forward jump leads whose operand is at the offset. -/
def forwardTarget (c : Chunk) (offset : Nat) : Except Fault Nat := do
  return offset + 2 + (← c.shortOperand offset)

/-- Where the backward jump leads whose operand is at the offset. -/
def backwardTarget (c : Chunk) (offset : Nat) : Except Fault Nat := do
  let distance ← c.shortOperand offset
  if distance ≤ offset + 2 then return offset + 2 - distance
  else throw .loopBeforeStart

end Chunk

/-- The value of the constant that the operand at an offset names. -/
def Pool.constantOperand (p : Pool) (c : Chunk) (offset : Nat) : Except Fault Value := do
  let i ← c.shortOperand offset
  match p.get? i with
  | some constant => return constant.toValue
  | none => throw (.constantOutOfRange i)

/-- The text that the operand at an offset names. -/
def Pool.nameOperand (p : Pool) (c : Chunk) (offset : Nat) : Except Fault String := do
  let i ← c.shortOperand offset
  match p.name? i with
  | some name => return name
  | none => throw (.constantNotName i)

/-- The call site that the operand at an offset names, with its position. -/
def CodeFunction.siteOperand (f : CodeFunction) (offset : Nat) : Except Fault (Nat × CallSite) := do
  let i ← f.chunk.shortOperand offset
  match f.sites[i]? with
  | some site => return (i, site)
  | none => throw (.siteOutOfRange i)

namespace Instruction

/-- The instruction of an opcode whose operands start at an offset. -/
def ofOpcode (p : Pool) (f : CodeFunction) (op : Opcode) (offset : Nat) :
    Except Fault Instruction := do
  let c := f.chunk
  match op with
  | .constant => return push (← p.constantOperand c offset)
  | .pushUndefined => return push .undefined
  | .pushNull => return push .null
  | .pushTrue => return push (.bool true)
  | .pushFalse => return push (.bool false)
  | .pop => return pop
  | .dup => return dup
  | .getLocal => return getLocal (← c.shortOperand offset)
  | .setLocal => return setLocal (← c.shortOperand offset)
  | .getEnv =>
    let depth ← c.byteOperand offset
    return getEnv depth (← c.shortOperand (offset + 1))
  | .setEnv =>
    let depth ← c.byteOperand offset
    return setEnv depth (← c.shortOperand (offset + 1))
  | .getGlobal => return getGlobal (← p.nameOperand c offset)
  | .setGlobal => return setGlobal (← p.nameOperand c offset)
  | .deleteGlobal => return deleteGlobal (← p.nameOperand c offset)
  | .getName => return getName (← p.nameOperand c offset)
  | .setName => return setName (← p.nameOperand c offset)
  | .callName =>
    let name ← p.nameOperand c offset
    return callName name (← c.byteOperand (offset + 2))
  | .deleteName => return deleteName (← p.nameOperand c offset)
  | .getMember =>
    let (i, site) ← f.siteOperand offset
    return getMember i site
  | .setMember =>
    let (i, site) ← f.siteOperand offset
    return setMember i site
  | .deleteMember => return deleteMember (← p.nameOperand c offset)
  | .callGlobal =>
    let (i, site) ← f.siteOperand offset
    return callGlobal i site
  | .invokeMember =>
    let (i, site) ← f.siteOperand offset
    return invokeMember i site
  | .call => return call (← c.byteOperand offset)
  | .closure => return closure (← c.shortOperand offset)
  | .newObject => return newObject
  | .initProperty => return initProperty (← p.nameOperand c offset)
  | .getThis => return getThis
  | .getCallee => return getCallee
  | .add => return binary .add
  | .sub => return binary .sub
  | .mul => return binary .mul
  | .div => return binary .div
  | .rem => return binary .rem
  | .neg => return negate
  | .plus => return plus
  | .not => return not
  | .typeof => return typeof
  | .less => return binary .less
  | .lessEq => return binary .lessEq
  | .greater => return binary .greater
  | .greaterEq => return binary .greaterEq
  | .looseEq => return binary .looseEq
  | .looseNe => return binary .looseNe
  | .strictEq => return binary .strictEq
  | .strictNe => return binary .strictNe
  | .jump => return jump (← c.forwardTarget offset)
  | .jumpIfFalse => return jumpIfFalse (← c.forwardTarget offset)
  | .jumpIfFalseOrPop => return jumpIfFalseOrPop (← c.forwardTarget offset)
  | .jumpIfTrueOrPop => return jumpIfTrueOrPop (← c.forwardTarget offset)
  | .loop => return jump (← c.backwardTarget offset)
  | .enterWith => return enterWith
  | .exitWith => return exitWith
  | .tryBegin => return tryBegin (← c.forwardTarget offset)
  | .tryEnd => return tryEnd
  | .throw => return throw
  | .ret => return ret
  | .retUndefined => return retUndefined

/-- Reads the instruction at an offset and gives the offset behind it. At the end of the code there is
none. -/
def read (p : Pool) (f : CodeFunction) (offset : Nat) :
    Except Fault (Option (Instruction × Nat)) :=
  if f.chunk.size ≤ offset then .ok none
  else
    match f.chunk.op? offset with
    | none => .error (.invalidOpcode offset)
    | some op => (ofOpcode p f op (offset + 1)).map fun i => some (i, offset + 1 + op.operandSize)

end Instruction

end ScriptEngine
