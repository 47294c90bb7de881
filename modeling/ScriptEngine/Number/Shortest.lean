import ScriptEngine.Number

/-!
# The shortest decimal of a number

Many decimals round to the same number. The one written is the one with the fewest digits; among
those the nearest to the number, and of two equally near the larger. Everything is decided in exact
integer arithmetic: the decimals that round to a number form an interval, and a grid of decimals
with a fixed count of digits meets the interval only if one of the number's two neighbours on that
grid lies in it.
-/

namespace ScriptEngine.Number

/-- The decimal `coefficient * 10 ^ exponent`. -/
structure Decimal where
  /-- The digits, read as a natural number. -/
  coefficient : Nat
  /-- The power of ten of the last digit. -/
  exponent : Int
  deriving DecidableEq, Repr

/-- The decimals that round to one positive number, as fractions of a common `unit`. -/
structure RoundingInterval where
  /-- Numerator of the lower end. -/
  lower : Nat
  /-- Numerator of the number itself. -/
  value : Nat
  /-- Numerator of the upper end. -/
  upper : Nat
  /-- The common denominator. -/
  unit : Nat
  /-- Whether the ends themselves round to the number: ties go to the even mantissa. -/
  closed : Bool

/-- The rounding interval of `m * 2 ^ e`. The ends are half a unit of the mantissa away, but only a
quarter below a power of two, where the numbers below are twice as dense. -/
def RoundingInterval.of (m : Nat) (e : Int) : RoundingInterval :=
  let scale := fun n : Nat => n <<< (e - 2).toNat
  let below := if m == leadingBit && leastExponent < e then 1 else 2
  { lower := scale (4 * m - below)
    value := scale (4 * m)
    upper := scale (4 * m + 2)
    unit := 1 <<< (2 - e).toNat
    closed := m % 2 == 0 }

/-- The fraction `num / den` scaled by a power of ten, as numerator and denominator. -/
def scaleTen (num den : Nat) (power : Int) : Nat × Nat :=
  (num * Nat.pow 10 power.toNat, den * Nat.pow 10 (-power).toNat)

/-- Whether a decimal lies in the interval. -/
def RoundingInterval.contains (i : RoundingInterval) (d : Decimal) : Bool :=
  let (num, den) := scaleTen d.coefficient 1 d.exponent
  let lower := i.lower * den
  let upper := i.upper * den
  let point := num * i.unit
  if i.closed then lower ≤ point && point ≤ upper else lower < point && point < upper

/-- How many decimal digits a natural number has; zero has one. -/
def digitCount (n : Nat) : Nat :=
  (Nat.toDigits 10 n).length

/-- The exponent `k` with `10 ^ (k - 1) ≤ num / den < 10 ^ k`. -/
def decimalExponent (num den : Nat) : Int :=
  if den ≤ num then digitCount (num / den)
  else 1 - (digitCount ((den - 1) / num) : Int)

/-- The better of the two neighbours of the number on the grid of decimals with `count` digits, if
one of them lies in the interval. -/
def RoundingInterval.onGrid? (i : RoundingInterval) (count : Nat) : Option Decimal :=
  let power := decimalExponent i.value i.unit - count
  let (num, den) := scaleTen i.value i.unit (-power)
  let below := num / den
  let lower : Decimal := ⟨below, power⟩
  let upper : Decimal :=
    if below + 1 == Nat.pow 10 count then ⟨1, power + count⟩ else ⟨below + 1, power⟩
  let nearer := if 2 * (num % den) < den then lower else upper
  let farther := if 2 * (num % den) < den then upper else lower
  if i.contains nearer then some nearer
  else if i.contains farther then some farther
  else none

/-- The decimal with the fewest digits that rounds to the positive finite number. Seventeen digits
always suffice. -/
def shortest (x : Number) : Decimal :=
  let (m, e) := x.decode
  let interval := RoundingInterval.of m e
  ((List.range 17).findSome? fun n => interval.onGrid? (n + 1)).getD ⟨m, 0⟩

/-- Positional notation: all digits are written out, with a point only before a fraction. -/
def Decimal.positional (d : Decimal) : String :=
  let digits := Nat.toDigits 10 d.coefficient
  if 0 ≤ d.exponent then
    String.ofList (digits ++ List.replicate d.exponent.toNat '0')
  else
    let places := (-d.exponent).toNat
    let padded := List.replicate (places + 1 - digits.length) '0' ++ digits
    let whole := padded.length - places
    String.ofList (padded.take whole ++ '.' :: padded.drop whole)

/-- The text of a number as scripts see it. Integers below `10 ^ 15` in magnitude are written
exactly and zero has no sign; all else is the shortest decimal, in positional notation. -/
def toText (x : Number) : String :=
  let sign := if x.isNegative then "-" else ""
  if x.isNaN then "NaN"
  else if x.isInfinite then sign ++ "Infinity"
  else if x.magnitude == 0 then "0"
  else if x.isIntegral && x.floorMagnitude < 1000000000000000 then sign ++ Nat.repr x.floorMagnitude
  else sign ++ x.shortest.positional

end ScriptEngine.Number
