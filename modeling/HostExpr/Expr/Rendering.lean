-- SUMMARY: The text of an expression, with every binary operation in parentheses.
import HostExpr.Expr
import HostExpr.Text.Quoted

/-!
# Rendering expressions

The text of an expression looks like source, fully parenthesised: parentheses stand around every
operation of two or three operands and around nothing else but arguments and types of casts. A
literal shows its kind by its suffix.
-/

namespace HostExpr.Expr

variable {σ : Type}

/-- The text of an operation of two operands. -/
def operation (left : String) (op : Symbol) (right : String) : String :=
  "(" ++ left ++ " " ++ op.text ++ " " ++ right ++ ")"

mutual

/-- The text of an expression. -/
def text : Expr σ → String
  | bool b => Value.boolText b
  | number value kind => Decimal.ofDouble value ++ kind.literalSuffix.getD ""
  | string s => Text.quoted s
  | enum value => value.text
  | logicalUnary op operand => op.symbol.text ++ operand.text
  | logical op left right => operation left.text op.symbol right.text
  | arithmeticUnary op operand _ => op.symbol.text ++ operand.text
  | arithmetic op left right _ => operation left.text op.symbol right.text
  | comparison op left right => operation left.text op.symbol right.text
  | conditional condition left right =>
    "(" ++ condition.text ++ " ? " ++ left.text ++ " : " ++ right.text ++ ")"
  | var name _ | typeName name _ => name
  | castTarget type => "(" ++ type.text ++ ")"
  | convert type operand => "(" ++ type.text ++ ")" ++ operand.text
  | call callee args => callee.name ++ "(" ++ ", ".intercalate (texts args) ++ ")"
  | property object member => object.text ++ "." ++ member.name
  | method object callee args =>
    object.text ++ "." ++ callee.name ++ Method.bracketed (callee.typeArgs.map Ty.text) ++
      "(" ++ ", ".intercalate (texts args) ++ ")"
  | element list index _ => list.text ++ "[" ++ index.text ++ "]"

/-- The texts of several expressions. -/
def texts : List (Expr σ) → List String
  | [] => []
  | e :: es => e.text :: texts es

end

end HostExpr.Expr
