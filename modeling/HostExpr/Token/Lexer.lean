-- SUMMARY: Splitting a source text into lexemes.
import HostExpr.Token
import HostExpr.Decimal.Real

/-!
# Splitting a text into lexemes

Blanks separate lexemes and are dropped. Everywhere else the next lexeme is the longest one that the
text begins with:

* a number is digits, a point between digits at most once, and then letters, digits and underscores,
  which have to be a suffix;
* a word is letters, digits and underscores;
* a string literal runs to the next quote of its sort that no backslash protects. A backslash
  protects any character but a line feed;
* a symbol is the longest one.

Positions are offsets in bytes. The first text that no lexeme begins with, or that is a malformed
one, is the error.
-/

namespace HostExpr

/-! ## Faults -/

/-- What is wrong with a text that should begin with a lexeme. -/
inductive LexFault where
  /-- A character that begins no lexeme. -/
  | unexpectedCharacter (c : Char)
  | invalidNumber (literal : String)
  /-- A suffix that selects no kind of number. -/
  | invalidNumberSuffix (literal suffix : String)
  | unterminatedString
  /-- A backslash before a character that has no escape. -/
  | invalidEscape (c : Char)
  deriving DecidableEq, Repr

/-- The wording of a fault. -/
def LexFault.message : LexFault → String
  | unexpectedCharacter c => "Unexpected character '" ++ String.singleton c ++ "'."
  | invalidNumber literal => "Invalid number literal '" ++ literal ++ "'."
  | invalidNumberSuffix literal suffix =>
    "Invalid suffix '" ++ suffix ++ "' on number literal '" ++ literal ++
      "'. Expected one of i, ui, l, ul, f, d."
  | unterminatedString => "Unterminated string literal."
  | invalidEscape c => "Invalid escape sequence '\\" ++ String.singleton c ++ "' in string literal."

namespace Lexer

/-! ## Classes of characters -/

/-- A blank between lexemes. -/
def isBlank (c : Char) : Bool := c = ' ' || c = '\t' || c = '\r' || c = '\n' || c = '\x0c'

/-- An ASCII letter or an underscore. -/
def isWordStart (c : Char) : Bool := c.isAlpha || c = '_'

/-- An ASCII letter or digit, or an underscore. -/
def isWordPart (c : Char) : Bool := isWordStart c || Decimal.isDigit c

/-! ## Numbers -/

/-- The number of characters after the digits before the point that belong to a fraction. -/
def fractionExtent : List Char → Nat
  | '.' :: rest =>
    match (rest.takeWhile Decimal.isDigit).length with
    | 0 => 0
    | n + 1 => n + 2
  | _ => 0

/-- The number of characters that continue a number after its first digit. -/
def numberExtent (cs : List Char) : Nat :=
  let whole := (cs.takeWhile Decimal.isDigit).length
  let fraction := fractionExtent (cs.drop whole)
  whole + fraction + ((cs.drop (whole + fraction)).takeWhile isWordPart).length

/-- The kind that a suffix selects for a literal. Without one, a literal with a point is a
double. -/
def numberKind? (digits suffix : List Char) : Option NumberKind :=
  if suffix = [] ∧ digits.contains '.' then
    some .double
  else
    NumberKind.ofSuffix? (String.ofList suffix)

/-- The number that a literal is. -/
def readNumber (literal : List Char) : Except LexFault Token :=
  let digits := literal.takeWhile fun c => !isWordStart c
  let suffix := literal.dropWhile fun c => !isWordStart c
  match numberKind? digits suffix with
  | none => .error (.invalidNumberSuffix (String.ofList literal) (String.ofList suffix))
  | some kind =>
    match Decimal.double? digits with
    | none => .error (.invalidNumber (String.ofList literal))
    | some value => .ok (.number value kind)

/-! ## Words -/

/-- The token that a word is. -/
def readWord (word : List Char) : Token :=
  match String.ofList word with
  | "true" => .truth true
  | "false" => .truth false
  | name => .identifier name

/-! ## Strings -/

/-- The number of characters up to the closing quote, and with it, if there is one. -/
def stringExtent? (quote : Char) : List Char → Option Nat
  | [] => none
  | '\\' :: rest =>
    match rest with
    | [] => none
    | c :: rest => if c = '\n' then none else (stringExtent? quote rest).map (· + 2)
  | c :: rest => if c = quote then some 1 else (stringExtent? quote rest).map (· + 1)

/-- The character that an escape stands for. -/
def escaped? : Char → Option Char
  | '\\' => some '\\'
  | '"' => some '"'
  | '\'' => some '\''
  | 'n' => some '\n'
  | 't' => some '\t'
  | 'r' => some '\r'
  | '0' => some '\x00'
  | _ => none

/-- The text that the inside of a string literal stands for. -/
def unescape : List Char → Except LexFault (List Char)
  | [] => .ok []
  | '\\' :: rest =>
    match rest with
    | [] => .error .unterminatedString
    | c :: rest =>
      match escaped? c with
      | none => .error (.invalidEscape c)
      | some d => (d :: ·) <$> unescape rest
  | c :: rest => (c :: ·) <$> unescape rest

/-! ## Lexemes -/

/-- The token that begins with a character, and how many of the characters after that one belong to
it. -/
def readToken (c : Char) (rest : List Char) : Except LexFault (Token × Nat) :=
  if Decimal.isDigit c then
    let n := numberExtent rest
    (·, n) <$> readNumber (c :: rest.take n)
  else if isWordStart c then
    let n := (rest.takeWhile isWordPart).length
    .ok (readWord (c :: rest.take n), n)
  else if c = '"' ∨ c = '\'' then
    match stringExtent? c rest with
    | none => .error .unterminatedString
    | some n => (fun text => (.string (String.ofList text), n)) <$> unescape (rest.take (n - 1))
  else
    match Symbol.starting? (c :: rest) with
    | none => .error (.unexpectedCharacter c)
    | some s => .ok (.symbol s, s.text.length - 1)

/-- The number of bytes of a text. -/
def bytes : List Char → Nat
  | [] => 0
  | c :: cs => c.utf8Size + bytes cs

end Lexer

/-! ## Lexed texts -/

/-- A fault and the offset of the text that has it. -/
structure LexError where
  fault : LexFault
  position : Nat
  deriving DecidableEq, Repr

/-- The lexemes of a text with the offsets they start at, and the length of the text in bytes. -/
structure Lexed where
  lexemes : List (Nat × Lexeme)
  size : Nat
  deriving DecidableEq

namespace Lexer

/-- The lexemes of a text that starts at the given offset. -/
def lexFrom (position : Nat) (cs : List Char) : Except LexError (List (Nat × Lexeme)) :=
  match cs with
  | [] => .ok []
  | c :: rest =>
    if isBlank c then
      lexFrom (position + c.utf8Size) rest
    else
      match readToken c rest with
      | .error fault => .error ⟨fault, position⟩
      | .ok (token, n) =>
        let text := c :: rest.take n
        ((position, ⟨token, String.ofList text⟩) :: ·) <$>
          lexFrom (position + bytes text) (rest.drop n)
termination_by cs.length
decreasing_by
  all_goals simp only [List.length_cons, List.length_drop]
  all_goals omega

end Lexer

/-- Splits a text into lexemes. -/
def lex (source : String) : Except LexError Lexed :=
  (⟨·, source.utf8ByteSize⟩) <$> Lexer.lexFrom 0 source.toList

namespace Lexed

/-- The tokens of a text. -/
def tokens (l : Lexed) : Tokens := l.lexemes.map (·.2)

/-- The offset at which what is left begins: that of its first token, or the length of the text if
nothing is left. -/
def position (l : Lexed) (rest : Tokens) : Nat :=
  match l.lexemes.drop (l.lexemes.length - rest.length) with
  | [] => l.size
  | (start, _) :: _ => start

end Lexed

end HostExpr
