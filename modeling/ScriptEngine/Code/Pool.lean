import Std.Data.HashMap
import ScriptEngine.Value

/-!
# Constant pools

The numbers and texts of a unit, each stored once. Two numbers are the same constant if their bit
patterns agree, so the two zeros are kept apart; of the NaNs only the sign counts.
-/

namespace ScriptEngine

/-- A constant of a unit: a number, or a text that may also serve as a name. -/
inductive Constant where
  /-- A number. -/
  | number (n : Number)
  /-- A text. -/
  | string (s : String)
  deriving DecidableEq, Hashable, Inhabited

namespace Constant

/-- The value of the constant. -/
def toValue : Constant → Value
  | number n => .number n
  | string s => .string s

/-- The constant of a value that is a number or a text. -/
def ofValue? : Value → Option Constant
  | .number n => some (number n)
  | .string s => some (string s)
  | _ => none

/-- The text, for a constant that is one. -/
def name? : Constant → Option String
  | number _ => none
  | string s => some s

/-- The representative of all constants that share an index. -/
def key : Constant → Constant
  | number n => if n.isNaN then number (.nanOfSign n.isNegative) else number n
  | string s => string s

end Constant

/-- The constants of a unit, with the index of each. -/
structure Pool where
  /-- The constants, in the order in which they were first added. -/
  constants : Array Constant := #[]
  /-- Where the constant of a given key stands. -/
  index : Std.HashMap Constant Nat := ∅
  deriving Inhabited

namespace Pool

/-- The number of constants. -/
def size (p : Pool) : Nat := p.constants.size

/-- The index of a constant, which is added if the pool does not hold it yet. -/
def add (p : Pool) (c : Constant) : Nat × Pool :=
  match p.index[c.key]? with
  | some i => (i, p)
  | none => (p.size, { constants := p.constants.push c, index := p.index.insert c.key p.size })

/-- The constant at an index. -/
def get? (p : Pool) (i : Nat) : Option Constant := p.constants[i]?

/-- The text at an index. -/
def name? (p : Pool) (i : Nat) : Option String := (p.get? i).bind Constant.name?

/-- The pool of the constants of a list, added in order. -/
def ofList (cs : List Constant) : Pool :=
  cs.foldl (fun p c => (p.add c).2) {}

end Pool

end ScriptEngine
