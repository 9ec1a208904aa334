-- SUMMARY: Choosing a method reads no parameter that a candidate does not have.
import HostExpr.Proofs.Overload

/-!
# Reads of parameters

A call without type arguments is resolved by reading parameters of the candidates: the first one, and those
from a position on. Here each of these reads fails where a method has too few parameters (`resolveChecked?`),
and none ever does, since the candidates were filtered by their number of parameters before.
-/

namespace HostExpr.Overload

variable {α σ : Type}

/-! ## Searches that may fail -/

theorem findM?_eq_some {p : α → Option Bool} {q : α → Bool} {l : List α}
    (h : ∀ a ∈ l, p a = some (q a)) : l.findM? p = some (l.find? q) := by
  induction l with
  | nil => rfl
  | cons a l ih =>
    obtain ⟨hfirst, hrest⟩ := List.forall_mem_cons.1 h
    rw [List.findM?, hfirst, List.find?_cons, ih hrest]
    cases q a <;> rfl

theorem filterM_eq_some {p : α → Option Bool} {q : α → Bool} {l : List α}
    (h : ∀ a ∈ l, p a = some (q a)) : l.filterM p = some (l.filter q) := by
  have haux : ∀ kept, l.filterAuxM p kept = some ((l.filter q).reverse ++ kept) := by
    induction l with
    | nil => exact fun kept => rfl
    | cons a l ih =>
      intro kept
      obtain ⟨hfirst, hrest⟩ := List.forall_mem_cons.1 h
      rw [List.filterAuxM, hfirst, Option.bind_eq_bind, Option.bind_some, ih hrest]
      cases hkeep : q a <;> simp [hkeep]
  rw [List.filterM, haux]
  simp

/-! ## Checked reads -/

/-- The parameters from a position on, where there are that many. -/
def paramsFrom? (skip : Nat) (m : Method σ) : Option (List Ty) :=
  if skip ≤ m.params.length then some (m.params.drop skip) else none

/-- The choice among candidates, by checked reads. -/
def selectChecked? (skip : Nat) (args : List Ty) (candidates : List (Method σ)) :
    Option (Option (Method σ)) := do
  match ← candidates.findM? fun m => do return decide ((← paramsFrom? skip m) = args) with
  | some m => return some m
  | none => candidates.findM? fun m => do return accepts (← paramsFrom? skip m) args

/-- The method extends a type and has one parameter more than the call has arguments. The first parameter is
read where the method is known to have one. -/
def extendsChecked? (ty : Ty) (arity : Nat) (m : Method σ) : Option Bool :=
  if m.isExtension && !m.isGeneric && m.params.length = arity + 1 then
    do return decide ((← m.params[0]?) = ty)
  else some false

/-- The extension methods, by checked reads. -/
def extensionsChecked? (c : Catalog σ) (helpers : List Ty) (ty : Ty) (name : String) (arity : Nat) :
    Option (List (Method σ)) :=
  (helpers.flatMap fun helper => c.methods helper name).filterM (extendsChecked? ty arity)

/-- What a call without type arguments means, by checked reads. -/
def resolveChecked? (c : Catalog σ) (helpers : List Ty) (ty : Ty) (name : String) (args : List Ty) :
    Option (Except Cause (Method σ)) := do
  match ← selectChecked? 0 args (declared c ty name args.length) with
  | some m => return .ok m
  | none =>
    match ← selectChecked? 1 args (← extensionsChecked? c helpers ty name args.length) with
    | some m => return .ok m
    | none => return .error (.unknownMethod ty.text name (Ty.texts args))

/-! ## No read fails -/

theorem paramsFrom?_eq_some {skip : Nat} {m : Method σ} (h : skip ≤ m.params.length) :
    paramsFrom? skip m = some (m.params.drop skip) := if_pos h

theorem selectChecked?_eq_some {skip : Nat} {candidates : List (Method σ)} (args : List Ty)
    (h : ∀ m ∈ candidates, skip ≤ m.params.length) :
    selectChecked? skip args candidates = some (select? skip args candidates) := by
  have hreads : ∀ {β : Type} (f : List Ty → β), ∀ m ∈ candidates,
      (do return f (← paramsFrom? skip m)) = some (f (m.params.drop skip)) := by
    intro β f m hm
    rw [paramsFrom?_eq_some (h m hm)]
    rfl
  unfold selectChecked? select?
  rw [findM?_eq_some (hreads fun params => decide (params = args)),
    findM?_eq_some (hreads fun params => accepts params args)]
  cases candidates.find? fun m => m.params.drop skip = args <;> rfl

theorem extendsChecked?_eq_some (ty : Ty) (arity : Nat) (m : Method σ) :
    extendsChecked? ty arity m =
      some (m.isExtension && !m.isGeneric && m.params.length = arity + 1 && m.params.head? = some ty) := by
  unfold extendsChecked?
  cases hshape : m.isExtension && !m.isGeneric && m.params.length = arity + 1 with
  | false => rfl
  | true =>
    cases hparams : m.params with
    | nil => simp [hparams] at hshape
    | cons param params => simp

theorem extensionsChecked?_eq_some (c : Catalog σ) (helpers : List Ty) (ty : Ty) (name : String)
    (arity : Nat) :
    extensionsChecked? c helpers ty name arity = some (extensions c helpers ty name arity) :=
  filterM_eq_some fun m _ => extendsChecked?_eq_some ty arity m

/-- No read of a parameter fails. -/
theorem resolveChecked?_eq_some (c : Catalog σ) (helpers : List Ty) (ty : Ty) (name : String)
    (args : List Ty) :
    resolveChecked? c helpers ty name args = some (resolve c helpers ty name args).value := by
  have hextensions : ∀ m ∈ extensions c helpers ty name args.length, 1 ≤ m.params.length := by
    intro m hm
    rw [(mem_extensions.1 hm).2.2.2.1]
    exact Nat.le_add_left 1 _
  rw [resolve_value]
  unfold resolveChecked?
  rw [selectChecked?_eq_some args fun m _ => Nat.zero_le m.params.length, extensionsChecked?_eq_some,
    Option.bind_eq_bind, Option.bind_some]
  cases select? 0 args (declared c ty name args.length) with
  | some m => rfl
  | none =>
    simp only [Option.bind_eq_bind, Option.bind_some, selectChecked?_eq_some args hextensions]
    cases select? 1 args (extensions c helpers ty name args.length) <;> rfl

end HostExpr.Overload
