-- SUMMARY: Tokens, their kinds, and the lexemes that carry them.
import HostExpr.Number.Kind

/-!
# Tokens

A token is a literal, an identifier, one of the words `true` and `false`, or a symbol. Its kind is
what the grammar asks for; the end of the input is a kind too, which no token has. A lexeme is a
token with the text it was written as.
-/

namespace HostExpr

/-! ## Symbols -/

/-- The symbols of the language. -/
inductive Symbol where
  | leftParen
  | rightParen
  | leftBracket
  | rightBracket
  | dot
  | comma
  | question
  | colon
  | orOr
  | andAnd
  | bar
  | caret
  | ampersand
  | equalEqual
  | notEqual
  | less
  | lessEqual
  | greaterEqual
  | greater
  | shiftLeft
  | shiftRight
  | plus
  | minus
  | star
  | slash
  | percent
  | tilde
  | bang
  deriving DecidableEq, Repr

namespace Symbol

/-- What a symbol is written as. -/
def text : Symbol → String
  | leftParen => "("
  | rightParen => ")"
  | leftBracket => "["
  | rightBracket => "]"
  | dot => "."
  | comma => ","
  | question => "?"
  | colon => ":"
  | orOr => "||"
  | andAnd => "&&"
  | bar => "|"
  | caret => "^"
  | ampersand => "&"
  | equalEqual => "=="
  | notEqual => "!="
  | less => "<"
  | lessEqual => "<="
  | greaterEqual => ">="
  | greater => ">"
  | shiftLeft => "<<"
  | shiftRight => ">>"
  | plus => "+"
  | minus => "-"
  | star => "*"
  | slash => "/"
  | percent => "%"
  | tilde => "~"
  | bang => "!"

/-- Every symbol. One that begins with another stands before it. -/
def all : List Symbol :=
  [orOr, andAnd, equalEqual, notEqual, lessEqual, greaterEqual, shiftLeft, shiftRight,
    leftParen, rightParen, leftBracket, rightBracket, dot, comma, question, colon, bar, caret,
    ampersand, less, greater, plus, minus, star, slash, percent, tilde, bang]

theorem mem_all (s : Symbol) : s ∈ all := by
  cases s <;> decide

/-- The longest symbol that a text begins with. -/
def starting? (cs : List Char) : Option Symbol := all.find? fun s => s.text.toList.isPrefixOf cs

end Symbol

/-! ## Tokens -/

/-- A token. -/
inductive Token where
  | number (value : Float) (kind : NumberKind)
  | string (text : String)
  | identifier (name : String)
  | truth (b : Bool)
  | symbol (s : Symbol)
  deriving DecidableEq

/-- What the grammar can ask for. -/
inductive TokenKind where
  | number
  | string
  | identifier
  | truth (b : Bool)
  | symbol (s : Symbol)
  | endOfInput
  deriving DecidableEq, Repr

/-- The description of a kind in messages. -/
def TokenKind.text : TokenKind → String
  | number => "number"
  | string => "string"
  | identifier => "identifier"
  | truth true => "'true'"
  | truth false => "'false'"
  | symbol s => "'" ++ s.text ++ "'"
  | endOfInput => "end of input"

namespace Token

/-- The kind of a token. -/
def kind : Token → TokenKind
  | number _ _ => .number
  | string _ => .string
  | identifier _ => .identifier
  | truth b => .truth b
  | symbol s => .symbol s

/-- The value and kind of a numeric literal. -/
def number? : Token → Option (Float × NumberKind)
  | number value kind => some (value, kind)
  | _ => none

/-- The text that a string literal stands for. -/
def string? : Token → Option String
  | string text => some text
  | _ => none

/-- The name that an identifier is. -/
def identifier? : Token → Option String
  | identifier name => some name
  | _ => none

end Token

/-! ## Lexemes -/

/-- A token with the text it was written as. -/
structure Lexeme where
  token : Token
  text : String
  deriving DecidableEq

/-- The text of a lexeme in messages. -/
def Lexeme.found (l : Lexeme) : String := "'" ++ l.text ++ "'"

/-- What is left to read. -/
abbrev Tokens := List Lexeme

namespace Tokens

/-- The kind of the first token, or that of the end. -/
def kind : Tokens → TokenKind
  | [] => .endOfInput
  | l :: _ => l.token.kind

/-- The first token as messages show it. -/
def found : Tokens → String
  | [] => TokenKind.endOfInput.text
  | l :: _ => l.found

end Tokens

end HostExpr
