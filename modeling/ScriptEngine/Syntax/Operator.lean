/-!
# Operators

The binary and unary operators of the language and how they are written.
-/

namespace ScriptEngine

/-- Operators with two operands. -/
inductive BinaryOp where
  /-- `+` -/
  | add
  /-- `-` -/
  | sub
  /-- `*` -/
  | mul
  /-- `/` -/
  | div
  /-- `%` -/
  | rem
  /-- `<` -/
  | less
  /-- `<=` -/
  | lessEq
  /-- `>` -/
  | greater
  /-- `>=` -/
  | greaterEq
  /-- `==` -/
  | looseEq
  /-- `!=` -/
  | looseNe
  /-- `===` -/
  | strictEq
  /-- `!==` -/
  | strictNe
  /-- `&&`, which skips its right operand if the left one is false -/
  | and
  /-- `||`, which skips its right operand if the left one is true -/
  | or
  deriving DecidableEq, Repr

namespace BinaryOp

/-- Every binary operator, in the order of their declaration. -/
def all : List BinaryOp :=
  [add, sub, mul, div, rem, less, lessEq, greater, greaterEq, looseEq, looseNe, strictEq, strictNe,
    and, or]

/-- Whether the operator computes a number from two numbers. -/
def isArithmetic : BinaryOp → Bool
  | add | sub | mul | div | rem => true
  | _ => false

/-- Whether the operator compares its operands. -/
def isComparison : BinaryOp → Bool
  | less | lessEq | greater | greaterEq | looseEq | looseNe | strictEq | strictNe => true
  | _ => false

/-- Whether the operator may skip its right operand. -/
def isLogical : BinaryOp → Bool
  | and | or => true
  | _ => false

/-- How the operator is written. -/
def symbol : BinaryOp → String
  | add => "+"
  | sub => "-"
  | mul => "*"
  | div => "/"
  | rem => "%"
  | less => "<"
  | lessEq => "<="
  | greater => ">"
  | greaterEq => ">="
  | looseEq => "=="
  | looseNe => "!="
  | strictEq => "==="
  | strictNe => "!=="
  | and => "&&"
  | or => "||"

/-- The operator that is written so. -/
def ofSymbol? (s : String) : Option BinaryOp :=
  all.find? (·.symbol == s)

end BinaryOp

/-- Operators with one operand, written in front of it. -/
inductive UnaryOp where
  /-- `-` -/
  | neg
  /-- `+` -/
  | plus
  /-- `!` -/
  | not
  /-- `typeof` -/
  | typeof
  /-- `void`, which drops its operand's value -/
  | void
  deriving DecidableEq, Repr

namespace UnaryOp

/-- Every unary operator, in the order of their declaration. -/
def all : List UnaryOp :=
  [neg, plus, not, typeof, void]

/-- How the operator is written. -/
def symbol : UnaryOp → String
  | neg => "-"
  | plus => "+"
  | not => "!"
  | typeof => "typeof"
  | void => "void"

/-- The operator that is written so. -/
def ofSymbol? (s : String) : Option UnaryOp :=
  all.find? (·.symbol == s)

end UnaryOp

end ScriptEngine
