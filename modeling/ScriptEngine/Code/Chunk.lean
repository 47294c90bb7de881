import ScriptEngine.Code.Opcode

/-!
# Chunks of code

The code of one function, as bytes, beside a table with the source line of each byte. Forward jumps
are written with a placeholder and patched once their target is known.
-/

namespace ScriptEngine

/-- The code of one function. -/
structure Chunk where
  /-- Opcodes and operands. -/
  code : Array UInt8 := #[]
  /-- The source line of every byte of the code. -/
  lines : Array UInt32 := #[]
  deriving DecidableEq, Inhabited, Repr

namespace Chunk

/-- The number of bytes; also the offset of whatever is written next. -/
def size (c : Chunk) : Nat := c.code.size

/-! ## Writing -/

/-- Appends a byte. -/
def writeByte (c : Chunk) (b : UInt8) (line : UInt32) : Chunk :=
  { code := c.code.push b, lines := c.lines.push line }

/-- Appends an opcode. -/
def writeOp (c : Chunk) (op : Opcode) (line : UInt32) : Chunk :=
  c.writeByte op.toByte line

/-- The higher byte of a sixteen-bit operand. -/
def highByte (n : UInt16) : UInt8 := (n >>> 8).toUInt8

/-- The lower byte of a sixteen-bit operand. -/
def lowByte (n : UInt16) : UInt8 := n.toUInt8

/-- Appends a sixteen-bit operand. -/
def writeShort (c : Chunk) (n : UInt16) (line : UInt32) : Chunk :=
  (c.writeByte (highByte n) line).writeByte (lowByte n) line

/-- The largest distance that a jump can cover. -/
def maxDistance : Nat := 65535

/-- Appends a forward jump without a target yet, and gives the offset of its operand. -/
def writeJump (c : Chunk) (op : Opcode) (line : UInt32) : Nat × Chunk :=
  let c := c.writeOp op line
  (c.size, c.writeShort 0xffff line)

/-- The distance from behind the operand at an offset to the end of the code. -/
def distanceFrom (c : Chunk) (offset : Nat) : Nat :=
  c.size - offset - 2

/-- Lets the jump whose operand is at the offset land at the end of the code. A distance that does
not fit is the error, and nothing is written then. -/
def patchJump (c : Chunk) (offset : Nat) : Except Nat Chunk :=
  let distance := c.distanceFrom offset
  if distance ≤ maxDistance then
    let n := distance.toUInt16
    .ok { c with code := (c.code.setIfInBounds offset (highByte n)).setIfInBounds (offset + 1) (lowByte n) }
  else .error distance

/-- Appends a backward jump to an offset. A distance that does not fit is the error; the opcode has
been written by then. -/
def writeLoop (c : Chunk) (start : Nat) (line : UInt32) : Chunk × Except Nat Unit :=
  let c := c.writeOp .loop line
  let distance := c.size - start + 2
  if distance ≤ maxDistance then (c.writeShort distance.toUInt16 line, .ok ())
  else (c, .error distance)

/-! ## Reading -/

/-- The byte at an offset. -/
def byte? (c : Chunk) (offset : Nat) : Option UInt8 := c.code[offset]?

/-- The sixteen-bit operand at an offset. -/
def short? (c : Chunk) (offset : Nat) : Option UInt16 := do
  let high ← c.code[offset]?
  let low ← c.code[offset + 1]?
  return (high.toUInt16 <<< 8) ||| low.toUInt16

/-- The opcode at an offset. -/
def op? (c : Chunk) (offset : Nat) : Option Opcode :=
  (c.byte? offset).bind Opcode.ofByte?

/-- The source line of the byte at an offset. -/
def line? (c : Chunk) (offset : Nat) : Option UInt32 := c.lines[offset]?

/-- Puts a line in front of lines of which each has a number of bytes in a row. -/
def addLine (line : UInt32) : List (UInt32 × Nat) → List (UInt32 × Nat)
  | [] => [(line, 1)]
  | (other, n) :: runs =>
    if other = line then (line, n + 1) :: runs else (line, 1) :: (other, n) :: runs

/-- The source lines in order, with how many bytes in a row each has. -/
def lineRuns (c : Chunk) : List (UInt32 × Nat) :=
  c.lines.foldr addLine []

/-- Appends the opcodes from an offset on. A byte that is no opcode is passed over. -/
def opcodesFrom (c : Chunk) (offset : Nat) (ops : Array Opcode) : Array Opcode :=
  if offset < c.size then
    match c.op? offset with
    | some op => c.opcodesFrom (offset + 1 + op.operandSize) (ops.push op)
    | none => c.opcodesFrom (offset + 1) ops
  else ops
  termination_by c.size - offset

/-- All opcodes, without their operands. -/
def opcodes (c : Chunk) : Array Opcode :=
  c.opcodesFrom 0 #[]

end Chunk

end ScriptEngine
