-- SUMMARY: The operators of expressions and the levels at which they bind.
import HostExpr.Expr
import HostExpr.Compile.Parsed

/-!
# Levels of operators

Ten levels of binary operators, from the loosest to the tightest. At every level operations group to
the left, but at the two levels of comparisons there is only one operation: `a == b == c` is not an
expression. Tighter than all of them are the operators that stand before an operand.
-/

namespace HostExpr

/-! ## Operators -/

/-- An operator between two operands. -/
inductive BinaryOp where
  | logical (op : LogicalOp)
  | arithmetic (op : ArithmeticOp)
  | comparison (op : ComparisonOp)
  deriving DecidableEq, Repr

namespace BinaryOp

/-- The symbol of an operator. -/
def symbol : BinaryOp → Symbol
  | logical op => op.symbol
  | arithmetic op => op.symbol
  | comparison op => op.symbol

/-- The role that both operands have to play. -/
def role : BinaryOp → Role
  | logical _ => .boolean
  | arithmetic _ | comparison _ => .numeric

/-- The operation on two operands. -/
def combine {σ : Type} : BinaryOp → Expr σ → Expr σ → Expr σ
  | logical op, left, right => .logical op left right
  | arithmetic op, left, right => .binary op left right
  | comparison op, left, right => .comparison op left right

end BinaryOp

/-- An operator before an operand. -/
inductive UnaryOp where
  | not
  | arithmetic (op : ArithmeticOp)
  deriving DecidableEq, Repr

namespace UnaryOp

/-- The operators that may stand before an operand. -/
def all : List UnaryOp := [.arithmetic .sub, .arithmetic .complement, .not]

/-- The symbol of an operator. -/
def symbol : UnaryOp → Symbol
  | not => .bang
  | arithmetic op => op.symbol

/-- The role that the operand has to play. -/
def role : UnaryOp → Role
  | not => .boolean
  | arithmetic _ => .numeric

/-- The operation on an operand. -/
def apply {σ : Type} : UnaryOp → Expr σ → Expr σ
  | not, operand => .logicalUnary .not operand
  | arithmetic op, operand => .unary op operand

end UnaryOp

/-! ## Levels -/

/-- The levels of binary operators, from the loosest to the tightest. -/
inductive Precedence where
  | or
  | and
  | bitOr
  | bitXor
  | bitAnd
  | equality
  | relation
  | shift
  | sum
  | product
  deriving DecidableEq, Repr

namespace Precedence

/-- The operators of a level. -/
def operators : Precedence → List BinaryOp
  | or => [.logical .or]
  | and => [.logical .and]
  | bitOr => [.arithmetic .bitOr]
  | bitXor => [.arithmetic .bitXor]
  | bitAnd => [.arithmetic .bitAnd]
  | equality => [.comparison .equal, .comparison .notEqual]
  | relation =>
    [.comparison .less, .comparison .lessEqual, .comparison .greaterEqual, .comparison .greater]
  | shift => [.arithmetic .shiftLeft, .arithmetic .shiftRight]
  | sum => [.arithmetic .add, .arithmetic .sub]
  | product => [.arithmetic .mul, .arithmetic .div, .arithmetic .mod]

/-- The level allows several operations in a row. -/
def chains : Precedence → Bool
  | equality | relation => false
  | _ => true

/-- The level of the operands, if it is one of binary operators. -/
def tighter? : Precedence → Option Precedence
  | or => some and
  | and => some bitOr
  | bitOr => some bitXor
  | bitXor => some bitAnd
  | bitAnd => some equality
  | equality => some relation
  | relation => some shift
  | shift => some sum
  | sum => some product
  | product => none

/-- The number of tighter levels. -/
def looseness : Precedence → Nat
  | or => 9
  | and => 8
  | bitOr => 7
  | bitXor => 6
  | bitAnd => 5
  | equality => 4
  | relation => 3
  | shift => 2
  | sum => 1
  | product => 0

theorem looseness_tighter? {p q : Precedence} (h : p.tighter? = some q) :
    q.looseness < p.looseness := by
  cases p <;> cases h <;> decide

theorem looseness_le (p : Precedence) : p.looseness ≤ 9 := by
  cases p <;> decide

end Precedence

namespace Tokens

/-- The first token, as one of some operators, and what is left after it. -/
def operator? {α : Type} (symbol : α → Symbol) (operators : List α) (ts : Tokens) :
    Option (α × ts.Shorter) :=
  operators.findSome? fun op => (ts.accept? (.symbol (symbol op))).map (op, ·)

end Tokens

end HostExpr
