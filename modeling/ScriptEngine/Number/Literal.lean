import ScriptEngine.Number.Shortest
import ScriptEngine.Text.Blank

/-!
# Reading a number from text

The numeric value of a string: blanks around it do not count, nothing at all is zero, and the rest
is a hexadecimal literal, a signed `Infinity` or a decimal literal. Any other text is a NaN.

* Hexadecimal digits after `0x` are taken one by one, with a rounding after each.
* A decimal literal is rounded once, from its exact value.
* Of an exponent, the digits that follow once it has reached 65536 do not count.

The reader of decimal literals, `ofNotation?`, takes words for infinity and for NaNs, too. Such words are no
numbers here, so what it is given is filtered first: the characters of decimal literals spell none of them.
-/

namespace ScriptEngine.Number

/-! ## Digits -/

/-- The value of a hexadecimal digit. -/
def hexDigit? (c : Char) : Option Nat :=
  if c.isDigit then some (c.toNat - '0'.toNat)
  else if 'a' ≤ c && c ≤ 'f' then some (c.toNat - 'a'.toNat + 10)
  else if 'A' ≤ c && c ≤ 'F' then some (c.toNat - 'A'.toNat + 10)
  else none

/-- One more hexadecimal digit behind those already read. -/
def pushHexDigit (x : Number) (d : Nat) : Number :=
  if x.isInfinite then x else ofNat (16 * x.floorMagnitude + d)

/-- The number of one or more hexadecimal digits. -/
def ofHex? (cs : List Char) : Option Number :=
  if cs.isEmpty then none else (cs.mapM hexDigit?).map (·.foldl pushHexDigit zero)

/-- The natural number that a run of decimal digits spells. -/
def digitsValue (cs : List Char) : Nat :=
  cs.foldl (fun n c => 10 * n + (c.toNat - '0'.toNat)) 0

/-! ## Decimal literals -/

/-- A decimal literal as written: sign, digits before and after the point, and the exponent. -/
structure DecimalLiteral where
  /-- Whether a minus sign stands in front. -/
  negative : Bool
  /-- The digits before the point. -/
  whole : List Char
  /-- The digits behind the point. -/
  fraction : List Char
  /-- The power of ten behind the digits. -/
  exponent : Int
  deriving Repr, DecidableEq

/-- Splits off a leading sign: whether it is a minus, and what follows. -/
def splitSign : List Char → Bool × List Char
  | '+' :: cs => (false, cs)
  | '-' :: cs => (true, cs)
  | cs => (false, cs)

/-- One more digit behind those of an exponent already read. An exponent that has reached 65536 takes
no more. -/
def pushExponentDigit (n : Nat) (c : Char) : Nat :=
  if n < 65536 then 10 * n + (c.toNat - '0'.toNat) else n

/-- The magnitude that the digits of an exponent stand for. -/
def exponentValue (cs : List Char) : Nat := cs.foldl pushExponentDigit 0

/-- Reads the optional exponent at the end of a literal. -/
def exponent? : List Char → Option Int
  | [] => some 0
  | c :: cs =>
    let (negative, digits) := splitSign cs
    if (c == 'e' || c == 'E') && !digits.isEmpty && digits.all Char.isDigit then
      some (if negative then -(exponentValue digits : Int) else exponentValue digits)
    else none

/-- Reads a decimal literal: a sign, digits with at most one point among or around them, and an
exponent. Sign and exponent may be missing; at least one digit may not. -/
def decimalLiteral? (cs : List Char) : Option DecimalLiteral :=
  let (negative, unsigned) := splitSign cs
  let whole := unsigned.takeWhile Char.isDigit
  let rest := unsigned.dropWhile Char.isDigit
  let (fraction, tail) := match rest with
    | '.' :: rest => (rest.takeWhile Char.isDigit, rest.dropWhile Char.isDigit)
    | rest => ([], rest)
  if whole.isEmpty && fraction.isEmpty then none
  else (exponent? tail).map fun exponent => { negative, whole, fraction, exponent }

/-- The number nearest to a decimal. Decimals far outside the range of numbers are settled by the
position of their first digit, before any power of ten is computed. -/
def ofDecimal (negative : Bool) (d : Decimal) : Number :=
  let position := digitCount d.coefficient + d.exponent
  if d.coefficient == 0 || position < -330 then ofRatio negative 0 1
  else if 310 < position then (if negative then negInfinity else infinity)
  else
    let (num, den) := scaleTen d.coefficient 1 d.exponent
    ofRatio negative num den

/-- A decimal that rounds as the digits with a power of ten behind them do. No point halfway between
two neighbouring numbers has as many as 800 digits, so of the digits behind the first 800 it only
matters whether they are all zero; a single one stands for them if they are not. -/
def Decimal.ofDigits (digits : List Char) (exponent : Int) : Decimal :=
  let kept := digitsValue (digits.take 800)
  let rest := digits.drop 800
  if rest.all (· == '0') then ⟨kept, exponent + rest.length⟩
  else ⟨10 * kept + 1, exponent + rest.length - 1⟩

/-- The number nearest to a decimal literal. -/
def DecimalLiteral.value (d : DecimalLiteral) : Number :=
  ofDecimal d.negative
    (.ofDigits ((d.whole ++ d.fraction).dropWhile (· == '0')) (d.exponent - d.fraction.length))

/-! ## Words -/

/-- The number that a word stands for, in letters of either case: infinity, in full or in short, or a NaN. -/
def ofWord? (cs : List Char) : Option Number :=
  let word := cs.map Char.toLower
  if word == "inf".toList || word == "infinity".toList then some infinity
  else if word == "nan".toList then some nan
  else none

/-- Reads a number in any notation that readers of numbers commonly take: a word or a decimal literal, with a
sign in front or without one. -/
def ofNotation? (cs : List Char) : Option Number :=
  let (negative, unsigned) := splitSign cs
  match ofWord? unsigned with
  | some x => some (if negative then x.neg else x)
  | none => (decimalLiteral? cs).map DecimalLiteral.value

/-! ## Any text -/

/-- Whether decimal literals are made of such characters. -/
def isDecimalChar (c : Char) : Bool :=
  c.isDigit || c == '.' || c == 'e' || c == 'E' || c == '+' || c == '-'

/-- The number that a text without blanks around it spells, if it spells one. Infinity has one spelling, and
what else the reader may take for a number has to look like a decimal literal. -/
def ofTrimmed? (cs : List Char) : Option Number :=
  match cs with
  | [] => some zero
  | '0' :: 'x' :: digits => ofHex? digits
  | '0' :: 'X' :: digits => ofHex? digits
  | cs =>
    let (negative, unsigned) := splitSign cs
    if unsigned == "Infinity".toList then some (if negative then negInfinity else infinity)
    else if unsigned.all isDecimalChar then ofNotation? cs
    else none

/-- The numeric value of a text; a NaN unless the text spells a number. -/
def ofText (s : String) : Number :=
  (ofTrimmed? (Text.trim s.toList)).getD nan

end ScriptEngine.Number
