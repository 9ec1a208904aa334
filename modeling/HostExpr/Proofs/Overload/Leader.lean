-- SUMMARY: What one pass over scored methods finds out: the best one, and whether it is the only one.
import HostExpr.Overload

/-!
# The leader of a pass

Methods are scored one after another, and only the leader is remembered. After each step the leader has the
highest score of the methods seen so far, and it is tied if and only if one of the others has that score too
(`Leads`). Which place a method has among those seen does not matter to that.
-/

namespace HostExpr.Overload

variable {σ : Type} {args : List Ty} {m : Method σ} {seen : List (Method σ)}
  {leader : Option (Leader σ)} {bound bound' : Nat}

/-! ## Bounds of scores -/

/-- The method is ruled out, or its score is at most a bound. -/
def ScoresAtMost (args : List Ty) (bound : Nat) (m : Method σ) : Prop :=
  ∀ score, score? args m = some score → score ≤ bound

theorem ScoresAtMost.mono (h : ScoresAtMost args bound m) (hle : bound ≤ bound') :
    ScoresAtMost args bound' m :=
  fun score hscore => Nat.le_trans (h score hscore) hle

theorem scoresAtMost_of_eq_none (h : score? args m = none) : ScoresAtMost args bound m :=
  fun score hscore => by cases h.symm.trans hscore

theorem scoresAtMost_of_eq_some {score : Nat} (h : score? args m = some score) (hle : score ≤ bound) :
    ScoresAtMost args bound m :=
  fun score' hscore => by
    cases h.symm.trans hscore
    exact hle

/-! ## Who leads -/

/-- Who leads the methods seen: nobody if no score is positive, or else one of the highest score. -/
inductive Leads (args : List Ty) (seen : List (Method σ)) : Option (Leader σ) → Prop
  | nobody (hseen : ∀ m ∈ seen, ScoresAtMost args 0 m) : Leads args seen none
  | somebody {leader : Leader σ} (others : List (Method σ))
      (hperm : seen.Perm (leader.method :: others))
      (hscore : score? args leader.method = some leader.score) (hpos : 0 < leader.score)
      (hothers : ∀ other ∈ others, ScoresAtMost args leader.score other)
      (htied : leader.tied ↔ ∃ other ∈ others, score? args other = some leader.score) :
      Leads args seen (some leader)

namespace Leads

/-- After a method whose score is not above that of the leader, the same method leads. -/
theorem keeps {leader leader' : Leader σ} (h : Leads args seen (some leader))
    (hm : ScoresAtMost args leader.score m) (hmethod : leader'.method = leader.method)
    (hequal : leader'.score = leader.score)
    (htied' : leader'.tied ↔ score? args m = some leader.score ∨ leader.tied) :
    Leads args (seen ++ [m]) (some leader') := by
  obtain ⟨method, score, tied⟩ := leader'
  subst hmethod hequal
  cases h with
  | somebody others hperm hscore hpos hothers htied =>
    have hperm' : (seen ++ [m]).Perm (leader.method :: m :: others) :=
      (List.perm_append_singleton m seen).trans ((hperm.cons m).trans (.swap _ _ _))
    refine .somebody (m :: others) hperm' hscore hpos (List.forall_mem_cons.2 ⟨hm, hothers⟩) ?_
    rw [htied', htied]
    constructor
    · rintro (hscore | ⟨other, hother, hscore⟩)
      · exact ⟨m, List.mem_cons_self .., hscore⟩
      · exact ⟨other, List.mem_cons_of_mem _ hother, hscore⟩
    · rintro ⟨other, hother, hscore⟩
      rcases List.mem_cons.1 hother with rfl | hother
      · exact .inl hscore
      · exact .inr ⟨other, hother, hscore⟩

/-- A method whose score is above those of all methods seen leads alone. -/
theorem overtakes {score : Nat} (hscore : score? args m = some score) (hpos : 0 < score)
    (hbound : bound < score) (hseen : ∀ other ∈ seen, ScoresAtMost args bound other) :
    Leads args (seen ++ [m]) (some ⟨m, score, false⟩) := by
  refine .somebody seen (List.perm_append_singleton m seen) hscore hpos
    (fun other hother => (hseen other hother).mono (Nat.le_of_lt hbound)) ?_
  refine iff_of_false Bool.false_ne_true ?_
  rintro ⟨other, hother, htie⟩
  exact absurd (hseen other hother score htie) (Nat.not_le.2 hbound)

/-- Nobody leads after a method without a positive score. -/
theorem nobody_append (h : Leads args seen none) (hm : ScoresAtMost args 0 m) :
    Leads args (seen ++ [m]) none := by
  cases h with
  | nobody hseen =>
    refine .nobody fun other hother => ?_
    rcases List.mem_append.1 hother with hother | hother
    · exact hseen other hother
    · exact List.mem_singleton.1 hother ▸ hm

/-- No score is above that of the leader. -/
theorem scoresAtMost {leader : Leader σ} (h : Leads args seen (some leader)) :
    ∀ other ∈ seen, ScoresAtMost args leader.score other := by
  cases h with
  | somebody others hperm hscore hpos hothers htied =>
    intro other hother
    rcases List.mem_cons.1 (hperm.mem_iff.1 hother) with rfl | hother
    · exact scoresAtMost_of_eq_some hscore (Nat.le_refl _)
    · exact hothers other hother

/-- One more method. -/
theorem contend (h : Leads args seen leader) (m : Method σ) :
    Leads args (seen ++ [m]) (contend args leader m) := by
  unfold Overload.contend
  cases hscore : score? args m with
  | none =>
    cases leader with
    | none => exact h.nobody_append (scoresAtMost_of_eq_none hscore)
    | some leader =>
      exact h.keeps (scoresAtMost_of_eq_none hscore) rfl rfl (by rw [hscore]; simp)
  | some score =>
    cases leader with
    | none =>
      dsimp only
      split
      case isTrue hpos =>
        cases h with
        | nobody hseen => exact overtakes hscore hpos hpos hseen
      case isFalse hzero =>
        exact h.nobody_append (scoresAtMost_of_eq_some hscore (Nat.not_lt.1 hzero))
    | some leader =>
      dsimp only
      split
      case isTrue hhigher =>
        exact overtakes hscore (Nat.lt_of_le_of_lt (Nat.zero_le _) hhigher) hhigher h.scoresAtMost
      case isFalse hnot =>
        have hm := scoresAtMost_of_eq_some hscore (Nat.not_lt.1 hnot)
        split
        case isTrue hequal => exact h.keeps hm rfl rfl (iff_of_true rfl (.inl (hequal ▸ hscore)))
        case isFalse hne => exact h.keeps hm rfl rfl (by rw [hscore]; simp [hne])

/-- Several more methods. -/
theorem foldl_contend (h : Leads args seen leader) (ms : List (Method σ)) :
    Leads args (seen ++ ms) (ms.foldl (Overload.contend args) leader) := by
  induction ms generalizing seen leader with
  | nil => rwa [List.append_nil]
  | cons m ms ih =>
    have hrest := ih (h.contend m)
    rwa [List.append_assoc] at hrest

end Leads

/-- A whole pass finds out who leads. -/
theorem leads_leader? (args : List Ty) (candidates : List (Method σ)) :
    Leads args candidates (leader? args candidates) :=
  Leads.foldl_contend (.nobody (List.forall_mem_nil _)) candidates

end HostExpr.Overload
