-- SUMMARY: What the score of a method is, when there is one, and how high it can be.
import HostExpr.Overload

/-!
# Scores

A score counts ten for each parameter of the very type of its argument, and one for each other that is an
open slot (`score?_eq_some_iff`). A parameter that is neither rules the method out (`score?_eq_none_iff`).
-/

namespace HostExpr.Overload

variable {σ : Type} {m : Method σ} {param arg : Ty} {params args : List Ty} {n : Nat}

theorem fit?_eq_some_iff :
    fit? param arg = some n ↔
      (param = arg ∧ n = 10) ∨ (param ≠ arg ∧ (∃ slot, param = .generic slot) ∧ n = 1) := by
  unfold fit?
  by_cases heq : param = arg
  · simp [heq, eq_comm]
  · rw [if_neg heq]
    cases param <;> simp [heq, eq_comm]

theorem totalFit?_cons_eq_some_iff :
    totalFit? (param :: params) (arg :: args) = some n ↔
      ∃ first, fit? param arg = some first ∧ ∃ rest, totalFit? params args = some rest ∧
        first + rest = n := by
  simp only [totalFit?, bind, pure, Option.bind_eq_some_iff, Option.some.injEq]

theorem totalFit?_eq_some_iff :
    totalFit? params args = some n ↔
      (∀ pair ∈ params.zip args, pair.1 = pair.2 ∨ ∃ slot, pair.1 = .generic slot) ∧
        n = 10 * (params.zip args).countP (fun pair => pair.1 = pair.2) +
          (params.zip args).countP fun pair => pair.1 ≠ pair.2 := by
  induction params generalizing args n with
  | nil => simp [totalFit?, eq_comm]
  | cons param params ih =>
    cases args with
    | nil => simp [totalFit?, eq_comm]
    | cons arg args =>
      rw [totalFit?_cons_eq_some_iff, List.zip_cons_cons, List.forall_mem_cons, List.countP_cons,
        List.countP_cons]
      constructor
      · rintro ⟨first, hfirst, rest, hrest, rfl⟩
        obtain ⟨hfits, rfl⟩ := ih.1 hrest
        rcases fit?_eq_some_iff.1 hfirst with ⟨rfl, rfl⟩ | ⟨hne, hslot, rfl⟩
        · exact ⟨⟨.inl rfl, hfits⟩, by simp; omega⟩
        · exact ⟨⟨.inr hslot, hfits⟩, by simp [hne]; omega⟩
      · rintro ⟨⟨hfirst, hfits⟩, rfl⟩
        by_cases heq : param = arg
        · exact ⟨10, fit?_eq_some_iff.2 (.inl ⟨heq, rfl⟩), _,
            ih.2 ⟨hfits, rfl⟩, by simp [heq]; omega⟩
        · exact ⟨1, fit?_eq_some_iff.2 (.inr ⟨heq, hfirst.resolve_left heq, rfl⟩), _,
            ih.2 ⟨hfits, rfl⟩, by simp [heq]; omega⟩

/-- A method scores if each parameter is of the very type of its argument or an open slot: ten for each of
the former and one for each other. -/
theorem score?_eq_some_iff :
    score? args m = some n ↔
      (∀ pair ∈ m.params.zip args, pair.1 = pair.2 ∨ ∃ slot, pair.1 = .generic slot) ∧
        n = 10 * (m.params.zip args).countP (fun pair => pair.1 = pair.2) +
          (m.params.zip args).countP fun pair => pair.1 ≠ pair.2 :=
  totalFit?_eq_some_iff

/-- A method is ruled out by a parameter of another type than its argument that is no slot. -/
theorem score?_eq_none_iff :
    score? args m = none ↔
      ∃ pair ∈ m.params.zip args, pair.1 ≠ pair.2 ∧ ∀ slot, pair.1 ≠ .generic slot := by
  cases hscore : score? args m with
  | none =>
    refine iff_of_true rfl (Classical.byContradiction fun hall => ?_)
    have hfits : ∀ pair ∈ m.params.zip args, pair.1 = pair.2 ∨ ∃ slot, pair.1 = .generic slot := by
      simpa [Classical.or_iff_not_imp_left] using hall
    cases hscore.symm.trans (score?_eq_some_iff.2 ⟨hfits, rfl⟩)
  | some n =>
    refine iff_of_false nofun ?_
    rintro ⟨pair, hpair, hne, hslot⟩
    rcases (score?_eq_some_iff.1 hscore).1 pair hpair with heq | ⟨slot, heq⟩
    · exact hne heq
    · exact hslot slot heq

/-- A score is at most ten times the number of arguments. -/
theorem score?_le (h : score? args m = some n) : n ≤ 10 * args.length := by
  obtain ⟨-, rfl⟩ := score?_eq_some_iff.1 h
  have hlength : (m.params.zip args).length ≤ args.length := by
    rw [List.length_zip]
    exact Nat.min_le_right ..
  have hall := List.length_eq_countP_add_countP (l := m.params.zip args)
    fun pair : Ty × Ty => decide (pair.1 = pair.2)
  simp only [decide_eq_true_eq, ne_eq] at hall ⊢
  omega

end HostExpr.Overload
