-- SUMMARY: How evaluations end, with a rule for each way of putting them together.
import HostExpr.Expr.Evaluation

/-!
# How evaluations end

`Ends I P m Q E` says how the evaluation `m` ends: if `P`, with a result that satisfies `Q` or a failure
that satisfies `E`, in every run after which the host satisfies `I`. The condition on the host goes from
the end of a run back to its start, as a condition does that all of a growing log has to meet. It does so
even without `P`, since `P` may itself be what a condition on the host has shown of an earlier part.
-/

namespace HostExpr

variable {σ α β : Type}

namespace EvalM

/-! ## Running -/

theorem bind_apply (m : EvalM σ α) (k : α → EvalM σ β) (host : σ) :
    (m >>= k) host = match m host with
      | (.ok a, host) => k a host
      | (.error e, host) => (.error e, host) := by
  show (ExceptT.bind m k) host = _
  simp only [ExceptT.bind, ExceptT.mk, bind, StateT.bind]
  rcases m host with ⟨result, middle⟩
  cases result <;> rfl

theorem bind_of_ok {m : EvalM σ α} {k : α → EvalM σ β} {host host' : σ} {a : α}
    (h : m host = (.ok a, host')) : (m >>= k) host = k a host' := by
  rw [bind_apply, h]

theorem bind_of_error {m : EvalM σ α} {k : α → EvalM σ β} {host host' : σ} {e : EvalError}
    (h : m host = (.error e, host')) : (m >>= k) host = (.error e, host') := by
  rw [bind_apply, h]

/-- An evaluation in two parts succeeds if both do. -/
theorem bind_eq_ok {m : EvalM σ α} {k : α → EvalM σ β} {host host' : σ} {b : β} :
    (m >>= k) host = (.ok b, host') ↔
      ∃ a middle, m host = (.ok a, middle) ∧ k a middle = (.ok b, host') := by
  rw [bind_apply]
  constructor
  · intro h
    split at h
    · exact ⟨_, _, ‹_›, h⟩
    · cases h
  · rintro ⟨a, middle, hm, hk⟩
    rw [hm]
    exact hk

theorem liftM_eq_ok {result : Except EvalError α} {host host' : σ} {a : α} :
    (liftM result : EvalM σ α) host = (.ok a, host') ↔ result = .ok a ∧ host = host' :=
  Prod.mk.injEq .. ▸ Iff.rfl

/-! ## Endings -/

/-- An outcome is a result that satisfies `Q` or a failure that satisfies `E`. -/
def Outcome (Q : α → Prop) (E : EvalError → Prop) : Except EvalError α → Prop
  | .ok a => Q a
  | .error e => E e

/-- After every run that leaves the host satisfying `I`, the host satisfied it before, and given `P`, the
outcome is a result that satisfies `Q` or a failure that satisfies `E`. -/
def Ends (I : σ → Prop) (P : Prop) (m : EvalM σ α) (Q : α → Prop) (E : EvalError → Prop) : Prop :=
  ∀ host, I (m host).2 → I host ∧ (P → Outcome Q E (m host).1)

namespace Ends

variable {I : σ → Prop} {P : Prop} {m : EvalM σ α} {Q : α → Prop} {E : EvalError → Prop}

theorem mono (h : Ends I P m Q E) {P' : Prop} {Q' : α → Prop} (hP : P' → P)
    (hQ : P' → ∀ a, Q a → Q' a) : Ends I P' m Q' E := by
  intro host hI
  obtain ⟨hhost, houtcome⟩ := h host hI
  refine ⟨hhost, fun hP' => ?_⟩
  have houtcome := houtcome (hP hP')
  revert houtcome
  cases (m host).1 with
  | ok a => exact hQ hP' a
  | error e => exact id

/-- What is known before does not matter to an evaluation that ends well anyway. -/
theorem given (h : Ends I True m Q E) : Ends I P m Q E :=
  h.mono (fun _ => trivial) fun _ _ => id

/-- The failures of an evaluation that ends well. -/
theorem error (h : Ends (fun _ => True) True m Q E) {host : σ} {e : EvalError}
    (he : (m host).1 = .error e) : E e := by
  have houtcome := (h host trivial).2 trivial
  rw [he] at houtcome
  exact houtcome

theorem pure {a : α} (h : P → Q a) : Ends I P (Pure.pure a) Q E := by
  intro host hI
  exact ⟨hI, h⟩

theorem throw {e : EvalError} (h : P → E e) : Ends I P (throw e : EvalM σ α) Q E := by
  intro host hI
  exact ⟨hI, h⟩

theorem lift {result : Except EvalError α} (h : P → Outcome Q E result) :
    Ends I P (liftM result : EvalM σ α) Q E := by
  intro host hI
  exact ⟨hI, h⟩

/-- One part after another: the second one knows what the first one came to. -/
theorem bind {k : α → EvalM σ β} {R : β → Prop} (hm : Ends I P m Q E)
    (hk : ∀ a, Ends I (P ∧ Q a) (k a) R E) : Ends I P (m >>= k) R E := by
  intro host hI
  have hm := hm host
  rw [bind_apply] at hI ⊢
  revert hI hm
  -- The run stops where the first part fails, and else goes on from the state that it left.
  rcases m host with ⟨result, middle⟩
  cases result with
  | error e =>
    intro hI hm
    exact hm hI
  | ok a =>
    intro hI hm
    obtain ⟨hmiddle, hR⟩ := hk a middle hI
    obtain ⟨hhost, hQ⟩ := hm hmiddle
    exact ⟨hhost, fun hP => hR ⟨hP, hQ hP⟩⟩

theorem ite {c : Prop} [Decidable c] {m' : EvalM σ α} (hm : c → Ends I P m Q E)
    (hm' : ¬ c → Ends I P m' Q E) : Ends I P (if c then m else m') Q E := by
  by_cases hc : c
  · rw [if_pos hc]
    exact hm hc
  · rw [if_neg hc]
    exact hm' hc

/-- An action of the host ends as the host says, and its failures are failures of the host. -/
theorem callFor {callee : String} {action : HostM σ α}
    (h : ∀ host, I (action host).2 → I host ∧ ∀ a, (action host).1 = .ok a → P → Q a)
    (hE : ∀ details, E (.hostFailure callee details)) :
    Ends I P (HostM.callFor callee action) Q E := by
  intro host hI
  obtain ⟨hhost, hQ⟩ := h host hI
  refine ⟨hhost, fun hP => ?_⟩
  show Outcome Q E ((action host).1.mapError (.hostFailure callee))
  revert hQ
  cases (action host).1 with
  | ok a =>
    intro hQ
    exact hQ a rfl hP
  | error details =>
    intro _
    exact hE details

end Ends

end EvalM

end HostExpr
