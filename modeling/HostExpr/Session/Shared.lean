-- SUMMARY: A session that is installed once and then shared.
import HostExpr.Session

/-!
# The shared session

There is at most one shared session, and it is set once: whoever comes first installs it, and
everyone after that gets the same one.
-/

namespace HostExpr

variable {σ : Type}

/-- The place of the shared session, which is empty at first. -/
structure SharedSession (σ : Type) where
  current : Option (Session σ)

namespace SharedSession

/-- The place before anything is installed. -/
def empty : SharedSession σ := ⟨none⟩

/-- Installs a session, which is given back if another one is there. -/
def install (shared : SharedSession σ) (s : Session σ) :
    Except (Session σ) (SharedSession σ) :=
  match shared.current with
  | some _ => .error s
  | none => .ok ⟨some s⟩

/-- The shared session. If there is none, the given one is made and installed. -/
def getOrInstall (shared : SharedSession σ) (make : Unit → Session σ) :
    Session σ × SharedSession σ :=
  match shared.current with
  | some s => (s, shared)
  | none =>
    let s := make ()
    (s, ⟨some s⟩)

end SharedSession

end HostExpr
