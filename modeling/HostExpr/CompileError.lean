-- SUMMARY: Why a text does not compile, where, and the message of each error.
import HostExpr.Token.Lexer

/-!
# Errors of compilation

A text fails to compile for a cause at a place. Besides the grammar, the causes cover every name that
cannot be resolved: nothing is looked up by name after compilation but the values of variables.

While the tokens are read a place is what was left to read (`Fault`). An error that is reported has
an offset in the text instead.
-/

namespace HostExpr

/-- What an expression has to be to stand in a place. -/
inductive Role where
  | numeric
  | boolean
  /-- It has a value. -/
  | value
  deriving DecidableEq, Repr

/-- The description of a role in messages. -/
def Role.text : Role → String
  | numeric => "a numeric expression"
  | boolean => "a boolean expression"
  | value => "a value"

/-- Why a text does not compile. Types and expressions are given by their texts. -/
inductive Cause where
  /-- The text does not split into lexemes. -/
  | lexical (fault : LexFault)
  | unexpectedToken (expected found : String)
  | unexpectedEnd (expected : String)
  /-- Tokens are left after a complete expression. -/
  | trailingTokens (token : String)
  | unknownVariable (name : String)
  | unknownFunction (name : String)
  | unknownEnumMember (enum member : String)
  | unknownMember (type member : String)
  | unknownMethod (type method arguments : String)
  /-- Several generic methods match equally well. -/
  | ambiguousMethod (type method : String)
  | argumentCount (function : String) (expected found : Nat)
  /-- An expression stands where one of another role has to. -/
  | wrongRole (role : Role) (expression : String)
  | cannotAccessMember (expression : String)
  | cannotIndex (expression : String)
  /-- Any other cause, by its wording. -/
  | other (message : String)
  deriving DecidableEq, Repr

/-- The wording of a cause. -/
def Cause.message : Cause → String
  | lexical fault => fault.message
  | unexpectedToken expected found => "Expected " ++ expected ++ ", found " ++ found ++ "."
  | unexpectedEnd expected => "Unexpected end of input, expected " ++ expected ++ "."
  | trailingTokens token => "Extra tokens after expression, starting at " ++ token ++ "."
  | unknownVariable name => "Unknown variable '" ++ name ++ "'."
  | unknownFunction name => "Unknown function '" ++ name ++ "()'."
  | unknownEnumMember enum member => "Enum '" ++ enum ++ "' has no member '" ++ member ++ "'."
  | unknownMember type member =>
    "Type '" ++ type ++ "' has no property or field '" ++ member ++ "'."
  | unknownMethod type method arguments =>
    "No method '" ++ method ++ "(" ++ arguments ++ ")' found on type '" ++ type ++
      "' or its extension types."
  | ambiguousMethod type method =>
    "Call to generic method '" ++ type ++ "." ++ method ++ "' is ambiguous."
  | argumentCount function expected found =>
    "Function '" ++ function ++ "' takes " ++ Decimal.ofInt expected ++ " argument(s) but " ++
      Decimal.ofInt found ++ " were supplied."
  | wrongRole role expression => "Expected " ++ role.text ++ ", found " ++ expression ++ "."
  | cannotAccessMember expression =>
    "Cannot access property or method on expression " ++ expression ++ "."
  | cannotIndex expression => "Cannot apply indexing with [] on expression " ++ expression ++ "."
  | other message => message

/-- A cause, and what was left to read at its place. -/
structure Fault where
  cause : Cause
  place : Tokens
  deriving DecidableEq

/-- A cause, and the offset of its place in the text. -/
structure CompileError where
  cause : Cause
  position : Nat
  deriving DecidableEq, Repr

namespace CompileError

/-- The error for a text that does not split into lexemes. -/
def ofLexError (e : LexError) : CompileError := ⟨.lexical e.fault, e.position⟩

/-- The error for a fault in a lexed text. -/
def ofFault (text : Lexed) (f : Fault) : CompileError := ⟨f.cause, text.position f.place⟩

/-- The wording of an error, with its offset. -/
def message (e : CompileError) : String :=
  "Error at position " ++ Decimal.ofInt e.position ++ ": " ++ e.cause.message

end CompileError

end HostExpr
