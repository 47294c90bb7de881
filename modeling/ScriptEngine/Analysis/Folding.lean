import ScriptEngine.Syntax.Node

/-!
# Folding of constants

Arithmetic on literal numbers is done ahead of time, by the same operations that the machine would
use. Nothing else is folded.
-/

namespace ScriptEngine

/-- The number that an arithmetic operator makes of two numbers; none for any other operator. -/
def BinaryOp.arithmetic? (op : BinaryOp) (x y : Number) : Option Number :=
  match op with
  | .add => some (x.add y)
  | .sub => some (x.sub y)
  | .mul => some (x.mul y)
  | .div => some (x.div y)
  | .rem => some (x.rem y)
  | _ => none

/-- The number that a unary operator makes of a number; none for any but the signs. -/
def UnaryOp.arithmetic? (op : UnaryOp) (x : Number) : Option Number :=
  match op with
  | .neg => some x.neg
  | .plus => some x
  | _ => none

/-- The value of a binary operation on two literal numbers. -/
def foldBinary? (op : BinaryOp) (lhs rhs : Node) : Option Number :=
  match lhs.number?, rhs.number? with
  | some x, some y => op.arithmetic? x y
  | _, _ => none

/-- The value of a unary operation on a literal number. -/
def foldUnary? (op : UnaryOp) (operand : Node) : Option Number :=
  operand.number?.bind op.arithmetic?

/-- What is known about the value of a binary operation. -/
def binaryType (op : BinaryOp) (lhs rhs : ValueType) : ValueType :=
  match op with
  | .add =>
    if lhs = .number && rhs = .number then .number
    else if lhs = .string || rhs = .string then .string
    else .any
  | .sub | .mul | .div | .rem => .number
  | .and | .or => if lhs = rhs then lhs else .any
  | _ => .bool

/-- What is known about the value of a unary operation. -/
def unaryType : UnaryOp → ValueType
  | .neg | .plus => .number
  | .not => .bool
  | .typeof => .string
  | .void => .undefined

end ScriptEngine
