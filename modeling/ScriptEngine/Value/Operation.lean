import ScriptEngine.Value
import ScriptEngine.Syntax.Operator

/-!
# Operators on values

What the operators compute. The logical operators choose between their operands, and whether the right
one is evaluated at all is settled by the code around them; `typeof` has to look at the heap.
-/

namespace ScriptEngine.Value

/-- Whether `+` joins texts when this is one of its operands. -/
def concatenates : Value → Bool
  | string _ | object _ => true
  | _ => false

/-- The sum of numbers, or two texts joined. -/
def add (v w : Value) : Value :=
  if v.concatenates || w.concatenates then string (v.toText ++ w.toText)
  else number (v.toNumber.add w.toNumber)

/-- The order of two texts by code points, or of two numbers; there is none with a NaN. -/
def compare? : Value → Value → Option Ordering
  | string s, string t => some (compare s t)
  | v, w => v.toNumber.compare? w.toNumber

/-- The value of a binary operation. -/
def binary (op : BinaryOp) (v w : Value) : Value :=
  match op with
  | .add => v.add w
  | .sub => number (v.toNumber.sub w.toNumber)
  | .mul => number (v.toNumber.mul w.toNumber)
  | .div => number (v.toNumber.div w.toNumber)
  | .rem => number (v.toNumber.rem w.toNumber)
  | .less => bool (v.compare? w == some .lt)
  | .lessEq => bool (v.compare? w == some .lt || v.compare? w == some .eq)
  | .greater => bool (v.compare? w == some .gt)
  | .greaterEq => bool (v.compare? w == some .gt || v.compare? w == some .eq)
  | .looseEq => bool (v.looseEq w)
  | .looseNe => bool (!v.looseEq w)
  | .strictEq => bool (v.strictEq w)
  | .strictNe => bool (!v.strictEq w)
  | .and => if v.toBool then w else v
  | .or => if v.toBool then v else w

/-- The value of unary `-`. -/
def negate (v : Value) : Value := number v.toNumber.neg

/-- The value of unary `+`. -/
def plus (v : Value) : Value := number v.toNumber

/-- The value of `!`. -/
def not (v : Value) : Value := bool (!v.toBool)

end ScriptEngine.Value
