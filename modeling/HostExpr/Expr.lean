-- SUMMARY: Expression trees, their types and the roles they can play.
import HostExpr.Host.Member
import HostExpr.Host.Method
import HostExpr.Host.Function
import HostExpr.Ty.Promotion
import HostExpr.CompileError

/-!
# Expressions

A tree in which every name is resolved: a call holds the function or method it runs, a member access
the member it reads. Only variables are still names; their values come with each evaluation. Every
node has a type, fixed when it is built.

A type name is not a value: it qualifies static members (`typeName`), or it waits in parentheses for
the operand of a cast (`castTarget`). The latter occurs in no complete expression.
-/

namespace HostExpr

/-! ## Operators -/

/-- The logical operators. `not` takes one operand. -/
inductive LogicalOp where
  | and
  | or
  | not
  deriving DecidableEq, Repr

/-- The operators on numbers. `complement` takes one operand and `sub` one or two. -/
inductive ArithmeticOp where
  | add
  | sub
  | mul
  | div
  | mod
  | bitAnd
  | bitOr
  | bitXor
  | complement
  | shiftLeft
  | shiftRight
  deriving DecidableEq, Repr

/-- The comparisons of numbers. -/
inductive ComparisonOp where
  | equal
  | notEqual
  | less
  | lessEqual
  | greaterEqual
  | greater
  deriving DecidableEq, Repr

/-- The symbol of an operator. -/
def LogicalOp.symbol : LogicalOp → Symbol
  | and => .andAnd
  | or => .orOr
  | not => .bang

/-- The symbol of an operator. -/
def ArithmeticOp.symbol : ArithmeticOp → Symbol
  | add => .plus
  | sub => .minus
  | mul => .star
  | div => .slash
  | mod => .percent
  | bitAnd => .ampersand
  | bitOr => .bar
  | bitXor => .caret
  | complement => .tilde
  | shiftLeft => .shiftLeft
  | shiftRight => .shiftRight

/-- The symbol of a comparison. -/
def ComparisonOp.symbol : ComparisonOp → Symbol
  | equal => .equalEqual
  | notEqual => .notEqual
  | less => .less
  | lessEqual => .lessEqual
  | greaterEqual => .greaterEqual
  | greater => .greater

/-! ## Trees -/

/-- An expression over a host with states in `σ`. -/
inductive Expr (σ : Type) where
  | bool (b : Bool)
  | number (value : Float) (kind : NumberKind)
  | string (text : String)
  | enum (value : EnumValue)
  | logicalUnary (op : LogicalOp) (operand : Expr σ)
  | logical (op : LogicalOp) (left right : Expr σ)
  | arithmeticUnary (op : ArithmeticOp) (operand : Expr σ) (type : Ty)
  | arithmetic (op : ArithmeticOp) (left right : Expr σ) (type : Ty)
  | comparison (op : ComparisonOp) (left right : Expr σ)
  /-- One of two numeric branches. -/
  | conditional (condition left right : Expr σ)
  | var (name : String) (type : Ty)
  /-- A type that qualifies a static member. -/
  | typeName (name : String) (type : Ty)
  /-- A type in parentheses, before the operand of its cast. -/
  | castTarget (type : Ty)
  | convert (type : Ty) (operand : Expr σ)
  | call (callee : HostFunction σ) (args : List (Expr σ))
  | property (object : Expr σ) (member : Member σ)
  /-- A method call. What an extension method is called on is its first argument. -/
  | method (object : Expr σ) (callee : Method σ) (args : List (Expr σ))
  | element (list index : Expr σ) (type : Ty)

namespace Expr

variable {σ : Type}

/-- The type of an expression. -/
def type : Expr σ → Ty
  | bool _ | logicalUnary _ _ | logical _ _ _ | comparison _ _ _ => .bool
  | number _ kind => .number kind
  | string _ => .string
  | enum value => .enum value.type
  | conditional _ _ _ => .double
  | arithmeticUnary _ _ type | arithmetic _ _ _ type | var _ type | typeName _ type
  | castTarget type | convert type _ | element _ _ type => type
  | call callee _ => callee.returns
  | property _ member => member.type
  | method _ callee _ => callee.returns

/-- The unary operation whose type is that of its operand. -/
def unary (op : ArithmeticOp) (operand : Expr σ) : Expr σ :=
  arithmeticUnary op operand operand.type

/-- The operation whose type is promoted from those of its operands. -/
def binary (op : ArithmeticOp) (left right : Expr σ) : Expr σ :=
  arithmetic op left right (left.type.promote right.type)

/-! ## Roles -/

/-- The expression names a type and has no value of it. -/
def isTypeReference : Expr σ → Bool
  | typeName _ _ | castTarget _ => true
  | _ => false

/-- The expression can be an operand of arithmetic and comparisons. -/
def isNumeric (e : Expr σ) : Bool := !e.isTypeReference && e.type.isNumeric

/-- The expression can be an operand of the logical operators. -/
def isBoolean (e : Expr σ) : Bool := !e.isTypeReference && e.type = .bool

/-- The expression has a text for its value. -/
def isString (e : Expr σ) : Bool := !e.isTypeReference && e.type = .string

/-- The expression has a value, be it the absent one. -/
def isObject : Expr σ → Bool
  | castTarget _ => false
  | _ => true

/-- The expression can stand where one of the role has to. -/
def plays (e : Expr σ) : Role → Bool
  | .numeric => e.isNumeric
  | .boolean => e.isBoolean
  | .value => e.isObject

end Expr

end HostExpr
