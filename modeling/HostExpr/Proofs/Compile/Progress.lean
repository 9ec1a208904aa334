-- SUMMARY: Reading ends, and whatever is read takes at least one token.
import HostExpr.Proofs.Compile.Calls

/-!
# Reading ends

A function of the grammar uses a token or, as a row of operations or of suffixes, adds nothing to what it was
given. Its calls go to fewer tokens or to a tighter part of the grammar, so they are nested no deeper than a
bound in the number of tokens, and what calls beyond that bound would do makes no difference.
-/

namespace HostExpr

variable {σ : Type}

namespace Reader

/-- The result is what the reader was given to go on from. -/
def Keeps : (r : Reader σ) → r.Result → Prop
  | chain _ _ left, e => e = left
  | suffixes base, e => e = base
  | _, _ => False

/-- How deep the calls can be nested that a reader makes on some tokens. -/
def depth (r : Reader σ) (ts : Tokens) : Nat := 16 * ts.length + r.looseness

theorem looseness_le (r : Reader σ) : r.looseness ≤ 13 := by
  cases r with
  | level p => exact Nat.add_le_add_right (Nat.le_succ_of_le p.looseness_le) 3
  | _ => simp [looseness]

theorem MayCall.depth_lt {r r' : Reader σ} {ts ts' : Tokens} (h : r.MayCall ts r' ts') :
    r'.depth ts' < r.depth ts := by
  unfold depth
  cases h with
  | after hrest =>
    have := hrest.length_lt
    have := r'.looseness_le
    omega
  | tighter hr => exact Nat.add_lt_add_left hr _

end Reader

namespace Session

variable {s : Session σ} {r : Reader σ} {ts rest : Tokens}

/-- The readers with calls nested at most `n` deep. Deeper calls are made by `beyond`. -/
def readWithin (s : Session σ) (beyond : Readers σ) : Nat → Readers σ
  | 0 => beyond
  | n + 1 => s.readWith (s.readWithin beyond n)

theorem readWithin_eq {beyond : Readers σ} {n : Nat} (h : r.depth ts < n) :
    s.readWithin beyond n r ts = s.read r ts := by
  induction n generalizing r ts with
  | zero => exact absurd h (Nat.not_lt_zero _)
  | succ n ih =>
    refine readWith_eq fun r' ts' hcall => ih ?_
    exact Nat.lt_of_lt_of_le hcall.depth_lt (Nat.le_of_lt_succ h)

/-- A reader uses a token, unless it is a row that adds nothing. -/
theorem advances_or_keeps {a : r.Result} (h : (s.read r ts).Yields a rest) :
    ts.Advances rest ∨ r.Keeps a ∧ rest = ts := by
  cases r with
  | chain p start left =>
    rcases yields_chain.1 h with ⟨-, rfl, rfl⟩ | ⟨op, -, next, right, after, hop, -, hright, -, hmore⟩
    · exact .inr ⟨rfl, rfl⟩
    · refine .inl ((hop.advances.trans (advances_operand hright)).of_isSuffix ?_)
      split at hmore
      · exact isSuffix_of_yields (r := .chain p start (op.combine left right)) hmore
      · exact hmore.2 ▸ List.suffix_rfl
  | suffixes base =>
    rcases yields_suffixes.1 h with ⟨-, -, rfl, rfl⟩ |
      ⟨inside, type, index, close, after, hopen, -, hindex, -, hclose, hmore⟩ |
      ⟨name, access, after, hdot, -, -, haccess, hmore⟩
    · exact .inr ⟨rfl, rfl⟩
    · have hinside := hopen.advances.trans (advances_of_yields (r := .expression) hindex rfl)
      exact .inl ((hinside.trans hclose.advances).of_isSuffix
        (isSuffix_of_yields (r := .suffixes (.element base index type)) hmore))
    · have hafter := hdot.advances.trans (advances_of_yields (r := .member base) haccess rfl)
      exact .inl (hafter.of_isSuffix (isSuffix_of_yields (r := .suffixes access) hmore))
  | _ => exact .inl (advances_of_yields h rfl)

/-- Reading uses tokens from the front, one at least for whatever it results in: only a row of operations or
of suffixes may use none, and then it is nothing but what it was given. Every function of the grammar, and
every round of a loop in it, makes its calls on tokens of which one has been used, or calls a tighter part of
the grammar: other calls make no difference to it. So reading ends for any number of tokens, with calls that
are nested no deeper than a bound in that number. -/
theorem reading_ends (s : Session σ) :
    (∀ (r : Reader σ) (ts rest : Tokens) (a : r.Result), (s.read r ts).Yields a rest →
      ∃ used, ts = used ++ rest ∧ (used = [] → r.Keeps a)) ∧
    (∀ (read : Readers σ) (r : Reader σ) (ts : Tokens),
      (∀ r' ts', r.MayCall ts r' ts' → read r' ts' = s.read r' ts') →
        s.readWith read r ts = s.read r ts) ∧
    ∀ (beyond : Readers σ) (r : Reader σ) (ts : Tokens) (n : Nat), r.depth ts < n →
      s.readWithin beyond n r ts = s.read r ts := by
  refine ⟨fun r ts rest a h => ?_, fun read r ts => readWith_eq, fun beyond r ts n => readWithin_eq⟩
  rcases advances_or_keeps h with ⟨used, hused, hts⟩ | ⟨hkeeps, hrest⟩
  · exact ⟨used, hts, fun hnone => absurd hnone hused⟩
  · exact ⟨[], hrest.symm, fun _ => hkeeps⟩

/-- Three tokens are read with calls that are nested less than 62 deep, and reading them does not take a call
of `expression` on all three once more. -/
theorem reading_ends_group :
    let ts : Tokens := [⟨.symbol .leftParen, "("⟩, ⟨.truth true, "true"⟩, ⟨.symbol .rightParen, ")"⟩]
    let beyond : Readers Unit := fun _ ts => .fail (.other "too deep") ts
    let once : Readers Unit := fun r ts =>
      if 3 ≤ ts.length ∧ 13 ≤ r.looseness then .fail (.other "once more") ts else new.read r ts
    (new.readWithin beyond 62 .expression ts).Yields (.bool true) [] ∧
      (new.readWith once .expression ts).Yields (.bool true) [] ∧
      ∃ used, ts = used ++ [] ∧ used ≠ [] := by
  intro ts beyond once
  obtain ⟨huses, hcalls, hends⟩ := reading_ends (new : Session Unit)
  have hyields : ((new : Session Unit).read .expression ts).Yields (.bool true) [] :=
    ⟨[], by decide, by with_unfolding_all rfl⟩
  have honce : ∀ r' ts', Reader.MayCall .expression ts r' ts' → once r' ts' = new.read r' ts' := by
    refine fun r' ts' hcall => if_neg fun hagain => ?_
    cases hcall with
    | after hrest => exact Nat.not_le_of_gt hrest.length_lt hagain.1
    | tighter hr => exact Nat.not_le_of_gt hr hagain.2
  refine ⟨?_, ?_, ?_⟩
  · rw [hends beyond .expression ts 62 (by decide)]
    exact hyields
  · rw [hcalls once .expression ts honce]
    exact hyields
  · obtain ⟨used, hts, hused⟩ := huses .expression ts [] _ hyields
    exact ⟨used, hts, hused⟩

end Session

end HostExpr
