/-!
# Hexadecimal text

Natural numbers in base sixteen, with lower-case digits.
-/

namespace ScriptEngine.Text

/-- The hexadecimal digits of a natural number. -/
def hexDigits (n : Nat) : List Char :=
  Nat.toDigits 16 n

/-- The hexadecimal digits of a natural number, after zeros up to a width. -/
def hexPadded (width n : Nat) : String :=
  let digits := hexDigits n
  String.ofList (List.replicate (width - digits.length) '0' ++ digits)

end ScriptEngine.Text
