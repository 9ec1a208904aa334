-- SUMMARY: Which generic method a call means, whatever the order of declaration.
import HostExpr.Proofs.Overload.Leader

/-!
# Calls with type arguments

One candidate alone is taken as it is. Of several, one wins whose score is positive and higher than that of
every other (`Wins`); the call is ambiguous if two or more have the highest positive score (`Ties`), and it
means no method otherwise. Neither is about the order of the candidates, so the order of declaration does
not matter.
-/

namespace HostExpr.Overload

variable {σ : Type} {args : List Ty} {candidates candidates' : List (Method σ)} {m m' : Method σ}

/-! ## Winning and tying -/

/-- The method has a positive score, and each of the other candidates is ruled out or has a lower one. -/
def Wins (args : List Ty) (candidates : List (Method σ)) (m : Method σ) : Prop :=
  ∃ score others, candidates.Perm (m :: others) ∧ score? args m = some score ∧ 0 < score ∧
    ∀ other ∈ others, ∀ score', score? args other = some score' → score' < score

/-- Two of the candidates have the same positive score, and each of the others is ruled out or has no higher
one. -/
def Ties (args : List Ty) (candidates : List (Method σ)) : Prop :=
  ∃ score first second others, candidates.Perm (first :: second :: others) ∧
    score? args first = some score ∧ score? args second = some score ∧ 0 < score ∧
    ∀ other ∈ others, ∀ score', score? args other = some score' → score' ≤ score

theorem Wins.of_perm (h : Wins args candidates m) (hperm : candidates'.Perm candidates) :
    Wins args candidates' m := by
  obtain ⟨score, others, hothers, h⟩ := h
  exact ⟨score, others, hperm.trans hothers, h⟩

theorem Ties.of_perm (h : Ties args candidates) (hperm : candidates'.Perm candidates) :
    Ties args candidates' := by
  obtain ⟨score, first, second, others, hothers, h⟩ := h
  exact ⟨score, first, second, others, hperm.trans hothers, h⟩

theorem Wins.mem (h : Wins args candidates m) : m ∈ candidates := by
  obtain ⟨score, others, hperm, -⟩ := h
  exact hperm.mem_iff.2 (List.mem_cons_self ..)

/-- Only one candidate wins. -/
theorem Wins.unique (h : Wins args candidates m) (h' : Wins args candidates m') : m = m' := by
  obtain ⟨score, others, hperm, hscore, -, hlower⟩ := h
  obtain ⟨score', others', hperm', hscore', -, hlower'⟩ := h'
  have hperms : (m :: others).Perm (m' :: others') := hperm.symm.trans hperm'
  rcases List.mem_cons.1 (hperms.mem_iff.1 (List.mem_cons_self ..)) with heq | hmem
  · exact heq
  · rcases List.mem_cons.1 (hperms.mem_iff.2 (List.mem_cons_self ..)) with heq | hmem'
    · exact heq.symm
    · exact absurd (hlower' m hmem score hscore) (Nat.lt_asymm (hlower m' hmem' score' hscore'))

/-- No candidate wins where two tie. -/
theorem Wins.not_ties (h : Wins args candidates m) : ¬ Ties args candidates := by
  rintro ⟨top, first, second, others', hperm', hfirst, hsecond, -, htop⟩
  obtain ⟨score, others, hperm, hscore, -, hlower⟩ := h
  have hperms : (m :: others).Perm (first :: second :: others') := hperm.symm.trans hperm'
  have hle : score ≤ top := by
    rcases List.mem_cons.1 (hperms.mem_iff.1 (List.mem_cons_self ..)) with rfl | hmem
    · cases hscore.symm.trans hfirst
      exact Nat.le_refl _
    · rcases List.mem_cons.1 hmem with rfl | hmem
      · cases hscore.symm.trans hsecond
        exact Nat.le_refl _
      · exact htop m hmem score hscore
  rcases List.mem_cons.1 (hperms.mem_iff.2 (List.mem_cons_self ..)) with rfl | hmem
  · -- The winner is one of the two, and the other of them is among those that it beats.
    have hrest : second ∈ others := (List.Perm.cons_inv hperms).mem_iff.2 (List.mem_cons_self ..)
    exact absurd (hlower second hrest top hsecond) (Nat.not_lt.2 hle)
  · exact absurd (hlower first hmem top hfirst) (Nat.not_lt.2 hle)

theorem Ties.length_ne_one (h : Ties args candidates) : candidates.length ≠ 1 := by
  obtain ⟨score, first, second, others, hperm, -⟩ := h
  rw [hperm.length_eq]
  simp

/-! ## What a pass finds out -/

namespace Leads

variable {leader : Leader σ}

/-- A leader that is not tied wins. -/
theorem wins (h : Leads args candidates (some leader)) (huntied : leader.tied = false) :
    Wins args candidates leader.method := by
  cases h with
  | somebody others hperm hscore hpos hothers htied =>
    refine ⟨leader.score, others, hperm, hscore, hpos, fun other hother score hother' => ?_⟩
    refine Nat.lt_of_le_of_ne (hothers other hother score hother') fun heq => ?_
    rw [htied.2 ⟨other, hother, heq ▸ hother'⟩] at huntied
    cases huntied

/-- Where the leader is tied, two candidates tie. -/
theorem ties (h : Leads args candidates (some leader)) (htie : leader.tied = true) :
    Ties args candidates := by
  cases h with
  | somebody others hperm hscore hpos hothers htied =>
    obtain ⟨other, hother, hscore'⟩ := htied.1 htie
    obtain ⟨before, after, rfl⟩ := List.append_of_mem hother
    have hothers' : (before ++ other :: after).Perm (other :: (before ++ after)) := List.perm_middle
    refine ⟨leader.score, leader.method, other, before ++ after, hperm.trans (hothers'.cons _), hscore,
      hscore', hpos, fun other' hother' => ?_⟩
    exact hothers other' (hothers'.mem_iff.2 (List.mem_cons_of_mem _ hother'))

/-- Where nobody leads, no candidate wins. -/
theorem not_wins (h : Leads args candidates none) : ¬ Wins args candidates m := by
  rintro ⟨score, others, hperm, hscore, hpos, -⟩
  cases h with
  | nobody hseen =>
    exact absurd (hseen m (hperm.mem_iff.2 (List.mem_cons_self ..)) score hscore) (Nat.not_le.2 hpos)

/-- Where nobody leads, no two candidates tie. -/
theorem not_ties (h : Leads args candidates none) : ¬ Ties args candidates := by
  rintro ⟨score, first, second, others, hperm, hscore, -, hpos, -⟩
  cases h with
  | nobody hseen =>
    exact absurd (hseen first (hperm.mem_iff.2 (List.mem_cons_self ..)) score hscore)
      (Nat.not_le.2 hpos)

end Leads

/-! ## The choice -/

variable {c c' : Catalog σ} {ty : Ty} {name : String} {typeArgs : List Ty}

/-- The candidates of a call with type arguments are the declared methods of its name that have as many slots
and parameters. -/
theorem generics_eq_filter (c : Catalog σ) (ty : Ty) (name : String) (slots arity : Nat) :
    generics c ty name slots arity = (c.definition ty).methods.filter fun m =>
      m.name = name ∧ m.isGeneric = true ∧ m.genericParams.length = slots ∧ m.params.length = arity := by
  unfold generics Catalog.methods
  rw [List.filter_filter]
  congr 1
  funext m
  rw [Bool.eq_iff_iff]
  simp only [Bool.and_eq_true, decide_eq_true_eq]
  rw [and_comm, and_assoc]

/-- A call with type arguments means its only candidate, or else the one that wins; or two tie; or none
wins. -/
theorem resolveGeneric_cases (c : Catalog σ) (ty : Ty) (name : String) (typeArgs args : List Ty)
    {candidates : List (Method σ)}
    (hcandidates : generics c ty name typeArgs.length args.length = candidates) :
    (∃ m, candidates = [m] ∧ (resolveGeneric c ty name typeArgs args).value = .ok m) ∨
      candidates.length ≠ 1 ∧
        ((∃ m, Wins args candidates m ∧ (resolveGeneric c ty name typeArgs args).value = .ok m) ∨
        (Ties args candidates ∧
          (resolveGeneric c ty name typeArgs args).value = .error (.ambiguousMethod ty.text name)) ∨
        ((∀ m, ¬ Wins args candidates m) ∧ ¬ Ties args candidates ∧
          (resolveGeneric c ty name typeArgs args).value =
            .error (.unknownMethod ty.text (name ++ "<" ++ Ty.texts typeArgs ++ ">") (Ty.texts args)))) := by
  have hleads := leads_leader? args candidates
  unfold resolveGeneric
  rw [hcandidates]
  split
  case h_1 m => exact .inl ⟨m, rfl, rfl⟩
  case h_2 hmany =>
    refine .inr ⟨fun hone => ?_, ?_⟩
    · obtain ⟨m, honly⟩ := List.length_eq_one_iff.1 hone
      exact hmany m honly
    · dsimp only
      cases hleader : leader? args candidates with
      | none =>
        rw [hleader] at hleads
        exact .inr (.inr ⟨fun m => hleads.not_wins, hleads.not_ties, rfl⟩)
      | some leader =>
        rw [hleader] at hleads
        cases htied : leader.tied with
        | false => exact .inl ⟨leader.method, hleads.wins htied, by simp [htied]⟩
        | true => exact .inr (.inl ⟨hleads.ties htied, by simp [htied]⟩)

/-- When each of the outcomes arises. -/
theorem resolveGeneric_value (c : Catalog σ) (ty : Ty) (name : String) (typeArgs args : List Ty)
    {candidates : List (Method σ)}
    (hcandidates : generics c ty name typeArgs.length args.length = candidates) :
    (∀ m, (resolveGeneric c ty name typeArgs args).value = .ok m ↔
        candidates = [m] ∨ candidates.length ≠ 1 ∧ Wins args candidates m) ∧
      ((resolveGeneric c ty name typeArgs args).value = .error (.ambiguousMethod ty.text name) ↔
        Ties args candidates) ∧
      ((resolveGeneric c ty name typeArgs args).value =
          .error (.unknownMethod ty.text (name ++ "<" ++ Ty.texts typeArgs ++ ">") (Ty.texts args)) ↔
        candidates.length ≠ 1 ∧ (∀ m, ¬ Wins args candidates m) ∧ ¬ Ties args candidates) := by
  rcases resolveGeneric_cases c ty name typeArgs args hcandidates with ⟨only, rfl, hvalue⟩ | ⟨hmany, h⟩
  · have hties : ¬ Ties args [only] := fun h => h.length_ne_one rfl
    simp [hvalue, hties]
  · have honly : ∀ m, candidates ≠ [m] := fun m h => hmany (by rw [h, List.length_singleton])
    rcases h with ⟨winner, hwins, hvalue⟩ | ⟨hties, hvalue⟩ | ⟨hwins, hties, hvalue⟩
    · have hiff : ∀ m, Wins args candidates m ↔ winner = m :=
        fun m => ⟨hwins.unique, fun h => h ▸ hwins⟩
      simp [hvalue, hmany, honly, hiff, hwins.not_ties]
    · have hwins : ∀ m, ¬ Wins args candidates m := fun m h => h.not_ties hties
      simp [hvalue, hmany, honly, hwins, hties]
    · simp [hvalue, hmany, honly, hwins, hties]

/-- The same declarations in another order give the same outcome. -/
theorem resolveGeneric_of_perm
    (hperm : (c'.definition ty).methods.Perm (c.definition ty).methods) :
    (resolveGeneric c' ty name typeArgs args).value = (resolveGeneric c ty name typeArgs args).value := by
  have hcandidates : (generics c' ty name typeArgs.length args.length).Perm
      (generics c ty name typeArgs.length args.length) := by
    rw [generics_eq_filter, generics_eq_filter]
    exact hperm.filter _
  obtain ⟨hok, hambiguous, hunknown⟩ := resolveGeneric_value c' ty name typeArgs args rfl
  rcases resolveGeneric_cases c ty name typeArgs args rfl with ⟨only, honly, hvalue⟩ | ⟨hmany, h⟩
  · rw [honly] at hcandidates
    rw [hvalue, hok]
    exact .inl (List.perm_singleton.1 hcandidates)
  · rw [← hcandidates.length_eq] at hmany
    rcases h with ⟨winner, hwins, hvalue⟩ | ⟨hties, hvalue⟩ | ⟨hwins, hties, hvalue⟩
    · rw [hvalue, hok]
      exact .inr ⟨hmany, hwins.of_perm hcandidates⟩
    · rw [hvalue, hambiguous]
      exact hties.of_perm hcandidates
    · rw [hvalue, hunknown]
      exact ⟨hmany, fun m h => hwins m (h.of_perm hcandidates.symm),
        fun h => hties (h.of_perm hcandidates.symm)⟩

/-- A call with type arguments means the only generic method of its name, slots and parameters, or else the
one whose score is positive and the highest; it is ambiguous if several have the highest positive score, and
one of an unknown method otherwise. The order of the declarations does not matter. -/
theorem resolveGeneric_iff (c : Catalog σ) (ty : Ty) (name : String) (typeArgs args : List Ty) :
    let candidates := (c.definition ty).methods.filter fun m =>
      m.name = name ∧ m.isGeneric = true ∧ m.genericParams.length = typeArgs.length ∧
        m.params.length = args.length
    let outcome := (resolveGeneric c ty name typeArgs args).value
    (∀ m, outcome = .ok m ↔ candidates = [m] ∨ candidates.length ≠ 1 ∧ Wins args candidates m) ∧
    (outcome = .error (.ambiguousMethod ty.text name) ↔ Ties args candidates) ∧
    (outcome =
        .error (.unknownMethod ty.text (name ++ "<" ++ Ty.texts typeArgs ++ ">") (Ty.texts args)) ↔
      candidates.length ≠ 1 ∧ (∀ m, ¬ Wins args candidates m) ∧ ¬ Ties args candidates) ∧
    ∀ c' : Catalog σ, (c'.definition ty).methods.Perm (c.definition ty).methods →
      (resolveGeneric c' ty name typeArgs args).value = outcome := by
  intro candidates outcome
  have hvalue := resolveGeneric_value c ty name typeArgs args
    (generics_eq_filter c ty name typeArgs.length args.length)
  exact ⟨hvalue.1, hvalue.2.1, hvalue.2.2, fun c' hperm => resolveGeneric_of_perm hperm⟩

/-- A generic method with slots for both parameters. -/
def bothSlots : Method Unit :=
  .generic "Pick" ["T"] [.generic "T", .generic "T"] .int fun _ _ _ => pure .null

/-- One of the same name that takes a text first. -/
def textFirst : Method Unit :=
  .generic "Pick" ["T"] [.string, .generic "T"] .int fun _ _ _ => pure .null

/-- Declared the other way round, the method that takes a text first is still the one meant. -/
theorem resolveGeneric_iff_textFirst :
    let c := (∅ : Catalog Unit).addMethod .int bothSlots |>.addMethod .int textFirst
    let c' := (∅ : Catalog Unit).addMethod .int textFirst |>.addMethod .int bothSlots
    (c'.definition .int).methods.Perm (c.definition .int).methods ∧
      (resolveGeneric c' .int "Pick" [.int] [.string, .int]).value = .ok textFirst := by
  intro c c'
  have hperm : (c'.definition .int).methods.Perm (c.definition .int).methods := .swap ..
  have hiff := resolveGeneric_iff c .int "Pick" [.int] [.string, .int]
  exact ⟨hperm, (hiff.2.2.2 c' hperm).trans rfl⟩

end HostExpr.Overload
