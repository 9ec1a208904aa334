-- SUMMARY: The written form of a text: in double quotes, with everything invisible escaped.
import HostExpr.Text.Invisible

/-!
# Quoted text

A text is shown between double quotes. Tab, carriage return, line feed, NUL, the backslash and the
double quote have an escape of one letter; any other character that would not be seen is written
by its code point, `\u` and the hexadecimal digits in braces. All else stands for itself.
-/

namespace HostExpr.Text

/-- The digits of a code point in base sixteen. -/
def hexDigits (code : Nat) : List Char := Nat.toDigits 16 code

/-- How a character is written between the quotes. -/
def escape (c : Char) : List Char :=
  match c with
  | '\t' => ['\\', 't']
  | '\r' => ['\\', 'r']
  | '\n' => ['\\', 'n']
  | '\x00' => ['\\', '0']
  | '\\' => ['\\', '\\']
  | '"' => ['\\', '"']
  | c =>
    if isInvisible c then
      ['\\', 'u', '\x7b'] ++ hexDigits c.toNat ++ ['\x7d']
    else
      [c]

/-- The text in double quotes, every character in its written form. -/
def quoted (s : String) : String :=
  String.ofList ('"' :: s.toList.flatMap escape ++ ['"'])

example : quoted "a\t\"b'" = "\"a\\t\\\"b'\"" := by decide +kernel
example : quoted "é\x7f" = "\"é\\u\x7b7f\x7d\"" := by decide +kernel

end HostExpr.Text
