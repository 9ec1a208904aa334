-- SUMMARY: Why an evaluation fails, and the message of each failure.
import HostExpr.Decimal.Integer

/-!
# Failures of evaluation

The causes for which an evaluation ends without a value. A cause keeps the texts that describe what
was found; `message` is its wording. A failed evaluation leaves the expression as it was.
-/

namespace HostExpr

/-- Why an evaluation failed. -/
inductive EvalError where
  /-- The bindings have no value for a variable. -/
  | unboundVariable (name : String)
  /-- A list has no element at the index. -/
  | indexOutOfBounds (index : Int) (length : Nat)
  /-- A value of another shape stands where a list is needed. -/
  | expectedList (found : String)
  | expectedNumber (found : String)
  | expectedBoolean (found : String)
  | expectedString (found : String)
  /-- A cast has no conversion for its operand. -/
  | conversionFailed (value target details : String)
  /-- The host failed to read a member or to run a method or function. -/
  | hostFailure (callee details : String)
  /-- An operator that takes two operands stands before one. -/
  | missingOperand (operator : String)
  /-- A cast stands without an operand. -/
  | incompleteCast (target : String)
  deriving DecidableEq, Repr

/-- The wording of a failure. -/
def EvalError.message : EvalError → String
  | unboundVariable name => "Runtime error: No value bound for variable '" ++ name ++ "'."
  | indexOutOfBounds index length =>
    "Runtime error: Index " ++ Decimal.ofInt index ++ " is out of bounds for a list of length " ++
      Decimal.ofInt length ++ "."
  | expectedList found => "Runtime error: Expected list, found " ++ found ++ "."
  | expectedNumber found => "Runtime error: Expected number, found " ++ found ++ "."
  | expectedBoolean found => "Runtime error: Expected boolean, found " ++ found ++ "."
  | expectedString found => "Runtime error: Expected string, found " ++ found ++ "."
  | conversionFailed value target details =>
    "Runtime error: Cannot convert " ++ value ++ " to " ++ target ++ ": " ++ details ++ "."
  | hostFailure callee details => "Runtime error: '" ++ callee ++ "' failed: " ++ details ++ "."
  | missingOperand operator =>
    "Runtime error: Operator '" ++ operator ++ "' is missing its right operand."
  | incompleteCast target => "Runtime error: Cast to '" ++ target ++ "' has no operand."

end HostExpr
