-- SUMMARY: What the host does when an expression calls on it, and the classes of its objects.
import HostExpr.Value

/-!
# Actions of the host

An expression reads members and calls methods and functions that the host supplies. Each is an
action on the state of the host: it returns a value or fails with a text, and the state it leaves
behind stays in both cases.

Objects of the host reach an expression as references. A class says which references stand for its
instances and what an instance holds.
-/

namespace HostExpr

/-- An action of the host on its state. A failure keeps the state that it arose in. -/
abbrev HostM (σ α : Type) := ExceptT String (StateM σ) α

/-- A class of objects of the host: its name, and how to look an instance up. -/
structure HostClass (σ τ : Type) where
  name : String
  find? : σ → ObjectRef → Option τ

namespace HostM

variable {σ τ : Type}

/-- The action that leaves the state alone and has the given result. -/
def ofExcept {α : Type} (result : Except String α) : HostM σ α := fun host => (result, host)

/-- Runs an action on a target, which has to be there. -/
def onTarget (action : Value → HostM σ Value) : Option Value → HostM σ Value
  | some target => action target
  | none => throw "an instance is required"

/-- The instance that a value refers to. -/
def instanceOf (c : HostClass σ τ) (v : Value) : HostM σ τ := do
  let host ← get
  match v.object?.bind (c.find? host) with
  | some x => return x
  | none => throw ("expected a " ++ c.name ++ " instance, found " ++ v.describe)

end HostM

end HostExpr
