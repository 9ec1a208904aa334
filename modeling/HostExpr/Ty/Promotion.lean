-- SUMMARY: The type of the result of an arithmetic operation.
import HostExpr.Ty

/-!
# Promotion

Two operands of the same type give a result of that type. Otherwise the first kind of a short ladder
that one of them has wins, and where neither has any of them the result is an `int`.
-/

namespace HostExpr.Ty

/-- The kinds that win over others, from the strongest on. -/
def ladder : List NumberKind := [.double, .float, .integer .ulong, .integer .long]

/-- The type of an operation on operands of the given types. -/
def promote (left right : Ty) : Ty :=
  if left = right then
    left
  else
    .number <| (ladder.find? fun kind =>
      left.numberKind? = some kind || right.numberKind? = some kind).getD .int

example : promote (.number (.integer .long)) (.number (.integer .ulong)) =
    .number (.integer .ulong) := by decide

end HostExpr.Ty
