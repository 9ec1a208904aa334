-- SUMMARY: Functions that expressions call by name.
import HostExpr.Host.Action

/-!
# Host functions

A function takes a fixed number of arguments and has no target.
-/

namespace HostExpr

/-- A function of the host. -/
structure HostFunction (σ : Type) where
  name : String
  params : List Ty
  returns : Ty
  /-- Runs the function on its arguments. -/
  call : List Value → HostM σ Value

/-- The number of arguments. -/
def HostFunction.arity {σ : Type} (f : HostFunction σ) : Nat := f.params.length

end HostExpr
