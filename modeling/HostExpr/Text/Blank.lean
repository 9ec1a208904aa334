-- SUMMARY: Unicode white space, and trimming it from both ends of a text.

/-!
# Blank characters

The characters with the Unicode property White_Space, and `trim`, which drops them from both ends
of a text. The lexer has a narrower notion of a blank (`Token.Lexer`): this one is for text that is
read as a value.
-/

namespace HostExpr.Text

/-- The property White_Space: tab to carriage return, the spaces, and the line separators. -/
def isBlank (c : Char) : Bool :=
  let code := c.toNat
  (0x9 ≤ code && code ≤ 0xD) || code == 0x20 || code == 0x85 || code == 0xA0 || code == 0x1680 ||
    (0x2000 ≤ code && code ≤ 0x200A) || code == 0x2028 || code == 0x2029 || code == 0x202F ||
    code == 0x205F || code == 0x3000

/-- The text without the blanks at its two ends. -/
def trimChars (cs : List Char) : List Char :=
  ((cs.dropWhile isBlank).reverse.dropWhile isBlank).reverse

/-- The text without the blanks at its two ends. -/
def trim (s : String) : String := String.ofList (trimChars s.toList)

end HostExpr.Text
