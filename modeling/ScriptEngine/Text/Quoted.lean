import ScriptEngine.Text.Hex
import ScriptEngine.Text.Hidden

/-!
# Quoted text

Text between double quotes on one line. The quote, the backslash and the common controls have short
escapes; a hidden character is written as its hexadecimal code point in braces; everything else
stands for itself.
-/

namespace ScriptEngine.Text

/-- How one character is written between quotes. -/
def escape (c : Char) : List Char :=
  match c with
  | '"' => ['\\', '"']
  | '\\' => ['\\', '\\']
  | '\n' => ['\\', 'n']
  | '\r' => ['\\', 'r']
  | '\t' => ['\\', 't']
  | '\x00' => ['\\', '0']
  | c => if isHidden c then ['\\', 'u', '\x7b'] ++ hexDigits c.toNat ++ ['\x7d'] else [c]

/-- The text between double quotes. -/
def quoted (s : String) : String :=
  String.ofList ('"' :: s.toList.flatMap escape ++ ['"'])

end ScriptEngine.Text
