import ScriptEngine.Number.Literal

/-!
# Values

The one dynamic type of the language and its conversions. Objects are referred to by handles, and no
conversion looks behind a handle: as text every object is `[object Object]`, as a number it is a NaN,
and it is always true.
-/

namespace ScriptEngine

/-- Refers to an object on the heap: a slot, and the generation of the slot's occupant. -/
structure Handle where
  /-- The slot. -/
  index : Nat
  /-- How often the slot had been vacated when the handle was issued. -/
  generation : UInt32
  deriving DecidableEq, Hashable, Repr

/-- A dynamically typed value. -/
inductive Value where
  /-- The value of what was never set. -/
  | undefined
  /-- The null value. -/
  | null
  /-- A truth value. -/
  | bool (b : Bool)
  /-- A number. -/
  | number (n : Number)
  /-- A piece of text. -/
  | string (s : String)
  /-- An object, by its handle. -/
  | object (h : Handle)
  deriving DecidableEq, Inhabited

/-- Coarse categories of values, used for hints about expressions and variables. -/
inductive ValueType where
  /-- Nothing is known. -/
  | any
  /-- The undefined value. -/
  | undefined
  /-- The null value. -/
  | null
  /-- A truth value. -/
  | bool
  /-- A number. -/
  | number
  /-- A piece of text. -/
  | string
  /-- An object. -/
  | object
  /-- A function. -/
  | function
  deriving DecidableEq, Repr, Inhabited

namespace ValueType

/-- The short name that listings use. -/
def shortName : ValueType → String
  | any => "any"
  | undefined => "undef"
  | null => "null"
  | bool => "bool"
  | number => "num"
  | string => "str"
  | object => "obj"
  | function => "fn"

/-- The category of that short name. -/
def ofShortName? (s : String) : Option ValueType :=
  [any, undefined, null, bool, number, string, object, function].find? (·.shortName == s)

end ValueType

namespace Value

/-- Whether the value is `undefined`. -/
def isUndefined : Value → Bool
  | undefined => true
  | _ => false

/-- Whether the value is `undefined` or `null`. -/
def isNullish : Value → Bool
  | undefined | null => true
  | _ => false

/-- The handle of an object. -/
def object? : Value → Option Handle
  | object h => some h
  | _ => none

/-- The number, for a value that is one; nothing is converted. -/
def number? : Value → Option Number
  | number n => some n
  | _ => none

/-- The category of the value. Functions are objects here. -/
def type : Value → ValueType
  | undefined => .undefined
  | null => .null
  | bool _ => .bool
  | number _ => .number
  | string _ => .string
  | object _ => .object

/-! ## Conversions -/

/-- Truth of a value: absent values, zeros, NaNs and the empty text are false. -/
def toBool : Value → Bool
  | undefined | null => false
  | bool b => b
  | number n => !n.eq .zero && !n.isNaN
  | string s => !s.isEmpty
  | object _ => true

/-- Numeric value. -/
def toNumber : Value → Number
  | undefined => .nan
  | null => .zero
  | bool b => if b then .one else .zero
  | number n => n
  | string s => .ofText s
  | object _ => .nan

/-- What an object is as text. -/
def objectText : String := "[object Object]"

/-- The text of a value. -/
def toText : Value → String
  | undefined => "undefined"
  | null => "null"
  | bool b => if b then "true" else "false"
  | number n => n.toText
  | string s => s
  | object _ => objectText

/-! ## Equality -/

/-- Equality without conversion: both values are of one kind and equal as such. -/
def strictEq : Value → Value → Bool
  | number x, number y => x.eq y
  | string s, string t => s == t
  | bool a, bool b => a == b
  | object h, object k => h == k
  | undefined, undefined => true
  | null, null => true
  | _, _ => false

/-- A primitive that stands in for the value in comparisons with primitives. -/
def toPrimitive : Value → Value
  | object _ => string objectText
  | v => v

/-- Equality of primitives that are neither `undefined` nor `null`: texts as texts, all else as
numbers. -/
def primitiveEq : Value → Value → Bool
  | string s, string t => s == t
  | v, w => v.toNumber.eq w.toNumber

/-- Equality with conversion. The absent values equal each other and nothing else; two objects are
equal if they are the same; an object and a primitive compare by the object's text. -/
def looseEq (v w : Value) : Bool :=
  if v.isNullish || w.isNullish then v.isNullish && w.isNullish
  else
    match v, w with
    | object h, object k => h == k
    | v, w => primitiveEq v.toPrimitive w.toPrimitive

end Value

end ScriptEngine
