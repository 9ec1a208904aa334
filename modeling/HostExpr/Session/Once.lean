-- SUMMARY: Compiling and evaluating a text in one go.
import HostExpr.Compiled

/-!
# Evaluating a text once

The text is compiled in a session of its own, with the prelude. Every binding is a variable there, of
the type that its value has.
-/

namespace HostExpr

variable {σ : Type}

/-- Why a text that is compiled and evaluated in one go has no value. -/
inductive OnceError where
  | compilation (e : CompileError)
  | evaluation (e : EvalError)
  deriving DecidableEq, Repr

/-- The wording of a failure. -/
def OnceError.message : OnceError → String
  | compilation e => e.message
  | evaluation e => e.message

/-- The session in which bindings are variables of the types of their values. -/
def Session.ofBindings (bindings : Names Value) : Session σ :=
  bindings.entries.foldl (fun s (name, v) => s.addVariable name v.type) Session.new.addPrelude

/-- Compiles and evaluates a text with bindings. -/
def evaluateOnce (source : String) (bindings : Names Value) (host : σ) :
    Logged (Except OnceError Value × σ) :=
  match (Session.ofBindings bindings).compile source with
  | ⟨log, .error e⟩ => ⟨log, .error (.compilation e), host⟩
  | ⟨log, .ok c⟩ =>
    let ⟨log', result, host⟩ := c.evaluate bindings host
    ⟨log ++ log', result.mapError .evaluation, host⟩

end HostExpr
