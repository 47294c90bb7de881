/-!
# Numbers

The only numeric type of the language: an IEEE 754 binary64 number, held as its bit pattern. Two
bit patterns are different numbers for the machine even where the language compares them equal:
`0` and `-0` are kept apart, and so are the two signs of "not a number".

* Comparison is decided on the bit patterns alone, by the integer `key` that orders them.
* Rounding arithmetic is that of `Float`; the remainder is exact and is computed in integers.
* A NaN operand is passed on with its sign. An operation on proper numbers that has no answer
  gives the NaN whose sign bit is set.
-/

namespace ScriptEngine

/-- A binary64 number, by its bit pattern. -/
structure Number where
  /-- Sign bit, eleven exponent bits, fifty-two fraction bits. -/
  bits : UInt64
  deriving DecidableEq, Hashable, Inhabited

namespace Number

/-! ## Bit patterns -/

/-- The bit that holds the sign. -/
def signBit : UInt64 := 0x8000000000000000

/-- The bit pattern of positive infinity: the largest magnitude of a proper number. -/
def infinityBits : UInt64 := 0x7ff0000000000000

/-- The pattern without its sign. -/
def magnitude (x : Number) : UInt64 :=
  x.bits &&& 0x7fffffffffffffff

/-- Whether the sign bit is set; also meaningful for zeros and NaNs. -/
def isNegative (x : Number) : Bool :=
  x.bits &&& signBit != 0

/-- Whether the pattern stands for no number at all. -/
def isNaN (x : Number) : Bool :=
  infinityBits < x.magnitude

/-- Whether the number is an infinity of either sign. -/
def isInfinite (x : Number) : Bool :=
  x.magnitude == infinityBits

/-- Whether the number is neither an infinity nor a NaN. -/
def isFinite (x : Number) : Bool :=
  x.magnitude < infinityBits

/-- Positive zero. -/
def zero : Number := ⟨0⟩

/-- The number one. -/
def one : Number := ⟨0x3ff0000000000000⟩

/-- Positive infinity. -/
def infinity : Number := ⟨infinityBits⟩

/-- Negative infinity. -/
def negInfinity : Number := ⟨infinityBits ||| signBit⟩

/-- The NaN of the given sign. -/
def nanOfSign (negative : Bool) : Number :=
  if negative then ⟨0xfff8000000000000⟩ else ⟨0x7ff8000000000000⟩

/-- The NaN that stands for a missing number: its sign bit is clear. -/
def nan : Number := nanOfSign false

/-- The number with its sign bit flipped; this holds for zeros and NaNs too. -/
def neg (x : Number) : Number :=
  ⟨x.bits ^^^ signBit⟩

/-! ## Comparison -/

/-- The signed magnitude. Proper numbers are ordered as their keys are, and both zeros have
key zero. -/
def key (x : Number) : Int :=
  if x.isNegative then -(x.magnitude.toNat : Int) else x.magnitude.toNat

/-- The order of two numbers; a NaN has no order with anything, itself included. -/
def compare? (x y : Number) : Option Ordering :=
  if x.isNaN || y.isNaN then none else some (compare x.key y.key)

/-- Numeric equality: the zeros are equal, and a NaN equals nothing. -/
def eq (x y : Number) : Bool :=
  x.compare? y == some .eq

/-! ## Arithmetic -/

/-- The rounded number as the host arithmetic sees it. -/
def toFloat (x : Number) : Float :=
  Float.ofBits x.bits

/-- The number of a computed result. A result without a value carries the sign bit. -/
def ofFloat (f : Float) : Number :=
  if f.isNaN then nanOfSign true else ⟨f.toBits⟩

/-- Lifts an operation on proper numbers: the first operand that is a NaN is the answer. -/
def lift (op : Number → Number → Number) (x y : Number) : Number :=
  if x.isNaN then nanOfSign x.isNegative
  else if y.isNaN then nanOfSign y.isNegative
  else op x y

/-- Rounded sum. -/
def add : Number → Number → Number :=
  lift fun x y => ofFloat (x.toFloat + y.toFloat)

/-- Rounded difference. -/
def sub : Number → Number → Number :=
  lift fun x y => ofFloat (x.toFloat - y.toFloat)

/-- Rounded product. -/
def mul : Number → Number → Number :=
  lift fun x y => ofFloat (x.toFloat * y.toFloat)

/-- Rounded quotient. -/
def div : Number → Number → Number :=
  lift fun x y => ofFloat (x.toFloat / y.toFloat)

/-! ## Exact view -/

/-- The exponent of the unit in the last place of the smallest numbers. -/
def leastExponent : Int := -1074

/-- The bit above the fifty-two fraction bits: all numbers have it in their mantissa but the
smallest. -/
def leadingBit : Nat := 0x10000000000000

/-- The mantissa and exponent of the magnitude of a finite number: it is `m * 2 ^ e`. -/
def decode (x : Number) : Nat × Int :=
  let fraction := x.magnitude.toNat % leadingBit
  let exponent := x.magnitude.toNat / leadingBit
  if exponent == 0 then (fraction, leastExponent)
  else (fraction + leadingBit, leastExponent + (exponent - 1 : Nat))

/-- The exponent at which `num / den` has a quotient of at most fifty-three bits, and of no fewer
unless it is the least exponent. -/
def ratioExponent (num den : Nat) : Int :=
  let guess := if num == 0 then leastExponent
    else max ((num.log2 : Int) - den.log2 - 53) leastExponent
  let quotient := (num <<< (-guess).toNat) / (den <<< guess.toNat)
  if 2 * leadingBit ≤ quotient then guess + 1 else guess

/-- The magnitude pattern nearest to `num / den`; a tie goes to the even pattern, and what is too
large becomes an infinity. A carry out of the fraction bits runs into the exponent bits, which is
the pattern of the next power of two. -/
def ratioBits (num den : Nat) : Nat :=
  let e := ratioExponent num den
  let n := num <<< (-e).toNat
  let d := den <<< e.toNat
  let q := n / d
  let r := n % d
  let nearest := if d < 2 * r || (2 * r == d && q % 2 == 1) then q + 1 else q
  min ((e - leastExponent).toNat * leadingBit + nearest) infinityBits.toNat

/-- The number of the given sign nearest to `num / den`. -/
def ofRatio (negative : Bool) (num den : Nat) : Number :=
  let magnitude := (ratioBits num den).toUInt64
  ⟨if negative then magnitude ||| signBit else magnitude⟩

/-- The number of the given sign nearest to `m * 2 ^ e`. -/
def ofScaled (negative : Bool) (m : Nat) (e : Int) : Number :=
  ofRatio negative (m <<< e.toNat) (1 <<< (-e).toNat)

/-- The truncated magnitude of a finite number. -/
def floorMagnitude (x : Number) : Nat :=
  let (m, e) := x.decode
  if 0 ≤ e then m <<< e.toNat else m >>> (-e).toNat

/-- Whether the number is finite and has no fractional part. -/
def isIntegral (x : Number) : Bool :=
  let (m, e) := x.decode
  x.isFinite && (0 ≤ e || m % (1 <<< (-e).toNat) == 0)

/-- The number nearest to a natural number. -/
def ofNat (n : Nat) : Number :=
  ofRatio false n 1

/-- Exact remainder of the truncated quotient, with the sign of the dividend. Both magnitudes are
brought to the smaller exponent, where the remainder of integers is the remainder of the numbers. -/
def rem : Number → Number → Number :=
  lift fun x y =>
    if x.isInfinite || y.magnitude == 0 then nanOfSign true
    else if y.isInfinite then x
    else
      let (m, e) := x.decode
      let (n, f) := y.decode
      let least := min e f
      let r := (m <<< (e - least).toNat) % (n <<< (f - least).toNat)
      ofScaled x.isNegative r least

end Number

end ScriptEngine
