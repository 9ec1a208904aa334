-- SUMMARY: What an expression comes to, seen as a value, a number, a truth value or a text.
import HostExpr.Value

/-!
# Answers

Evaluation works on three sorts of answer. Arithmetic answers with a double and the type that the
result is meant to have; logic answers with a truth value; everything else with a value. Whoever asks
takes one of four views. As a value, the double is brought to its type, so `7 / 2` is the `int` 3; as
a number it is the double itself.
-/

namespace HostExpr

/-- What an expression comes to. -/
inductive Answer where
  /-- The result of arithmetic, meant for a type. -/
  | real (x : Float) (type : Ty)
  | truth (b : Bool)
  | value (v : Value)

namespace Answer

/-- The answer as a value. -/
def toValue : Answer → Value
  | real x type => Value.ofDouble type x
  | truth b => .bool b
  | value v => v

/-- The answer as a number. -/
def toNumber : Answer → Except EvalError Float
  | real x _ => .ok x
  | a => a.toValue.toDouble

/-- The answer as a truth value. -/
def toBool : Answer → Except EvalError Bool
  | truth b => .ok b
  | a => a.toValue.toBool

/-- The answer as a text. -/
def toText (a : Answer) : Except EvalError String := a.toValue.toText

/-- The answer as an argument for a parameter. If both are numeric, the number is brought to the type
of the parameter. -/
def toArgument (a : Answer) (isNumeric : Bool) (param : Ty) : Except EvalError Value :=
  if param.isNumeric && isNumeric then
    Value.ofDouble param <$> a.toNumber
  else
    .ok a.toValue

end Answer

end HostExpr
