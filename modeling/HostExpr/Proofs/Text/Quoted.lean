-- SUMMARY: What is written in quotes shows the text and where it ends.
import HostExpr.Proofs.Token.Splits

/-!
# Quoted texts are told apart

No written form of a character begins another one, and none begins with a quote. So a quoted text shows
the text that was quoted and where it ends, whatever stands behind it.
-/

namespace HostExpr

/-- Characters of a class, and what comes after them, are known from both together. -/
theorem Lexer.append_inj_of_class {p : Char → Bool} {cs cs' rest rest' : List Char}
    (hcs : ∀ c ∈ cs, p c) (hcs' : ∀ c ∈ cs', p c) (hrest : ∀ c ∈ rest.head?, p c = false)
    (hrest' : ∀ c ∈ rest'.head?, p c = false) (h : cs ++ rest = cs' ++ rest') :
    cs = cs' ∧ rest = rest' := by
  have htake := congrArg (List.takeWhile p) h
  have hdrop := congrArg (List.dropWhile p) h
  rw [takeWhile_append hcs hrest, takeWhile_append hcs' hrest'] at htake
  rw [dropWhile_append hcs hrest, dropWhile_append hcs' hrest'] at hdrop
  exact ⟨htake, hdrop⟩

namespace Text

/-! ## Hexadecimal digits -/

theorem digitChar_inj {m n : Nat} (hm : m < 16) (hn : n < 16) (h : m.digitChar = n.digitChar) :
    m = n := by
  have hall : ∀ m < 16, ∀ n < 16, Nat.digitChar m = Nat.digitChar n → m = n := by decide
  exact hall m hm n hn h

theorem hexDigits_of_lt {n : Nat} (h : n < 16) : hexDigits n = [n.digitChar] := by
  rw [hexDigits, Nat.toDigits_eq_if (by decide), if_pos h]

theorem hexDigits_of_ge {n : Nat} (h : ¬ n < 16) :
    hexDigits n = hexDigits (n / 16) ++ [(n % 16).digitChar] := by
  rw [hexDigits, Nat.toDigits_eq_if (by decide), if_neg h]
  rfl

theorem hexDigits_injective {m n : Nat} (h : hexDigits m = hexDigits n) : m = n := by
  induction m using Nat.strongRecOn generalizing n with
  | _ m ih =>
    have hne : ∀ n, hexDigits n ≠ [] := fun _ => Nat.toDigits_ne_nil
    by_cases hm : m < 16 <;> by_cases hn : n < 16
    · rw [hexDigits_of_lt hm, hexDigits_of_lt hn] at h
      exact digitChar_inj hm hn (List.cons.inj h).1
    · rw [hexDigits_of_lt hm, hexDigits_of_ge hn] at h
      exact absurd (List.append_eq_singleton_iff.1 h.symm) (by simp [hne])
    · rw [hexDigits_of_ge hm, hexDigits_of_lt hn] at h
      exact absurd (List.append_eq_singleton_iff.1 h) (by simp [hne])
    · rw [hexDigits_of_ge hm, hexDigits_of_ge hn] at h
      obtain ⟨hhigh, hlow⟩ := List.append_inj' h rfl
      have hhigh := ih (m / 16) (by omega) hhigh
      have hlow := digitChar_inj (Nat.mod_lt _ (by decide)) (Nat.mod_lt _ (by decide))
        (List.cons.inj hlow).1
      omega

/-- No hexadecimal digit is the brace that ends a code point. -/
theorem ne_brace_of_mem_hexDigits {n : Nat} {c : Char} (h : c ∈ hexDigits n) : c ≠ '\x7d' := by
  have hdigit : ∀ d < 16, Nat.digitChar d ≠ '\x7d' := by decide
  induction n using Nat.strongRecOn with
  | _ n ih =>
    by_cases hn : n < 16
    · rw [hexDigits_of_lt hn, List.mem_singleton] at h
      rw [h]
      exact hdigit n hn
    · rw [hexDigits_of_ge hn] at h
      rcases List.mem_append.1 h with h | h
      · exact ih (n / 16) (by omega) h
      · rw [List.mem_singleton.1 h]
        exact hdigit _ (Nat.mod_lt _ (by decide))

/-! ## Characters in quotes -/

/-- The ways in which a character is written between quotes. -/
theorem escape_cases (c : Char) :
    (escape c = [c] ∧ c ≠ '\\' ∧ c ≠ '"') ∨
      (∃ d, escape c = ['\\', d] ∧ Lexer.escaped? d = some c) ∨
      escape c = '\\' :: 'u' :: '\x7b' :: (hexDigits c.toNat ++ ['\x7d']) := by
  by_cases hsimple : isSimple c
  · rcases escape_of_isSimple hsimple with hplain | hletter
    · exact .inl hplain
    · exact .inr (.inl hletter)
  · refine .inr (.inr ?_)
    simp only [isSimple, Bool.or_eq_true, decide_eq_true_eq, not_or] at hsimple
    obtain ⟨hne, hmem⟩ := hsimple
    have hform : escape c =
        if isInvisible c then ['\\', 'u', '\x7b'] ++ hexDigits c.toNat ++ ['\x7d'] else [c] := by
      unfold escape
      split <;> first | exact absurd rfl hmem | rfl
    rw [hform]
    by_cases hinvisible : isInvisible c
    · rw [if_pos hinvisible]
      rfl
    · rw [hform, if_neg hinvisible] at hne
      exact absurd rfl hne

/-- A written form of a character shows which character it is and where it ends. -/
theorem escape_append_inj {c c' : Char} {rest rest' : List Char}
    (h : escape c ++ rest = escape c' ++ rest') : c = c' ∧ rest = rest' := by
  rcases escape_cases c with ⟨hc, hback, -⟩ | ⟨d, hc, hd⟩ | hc <;>
    rcases escape_cases c' with ⟨hc', hback', -⟩ | ⟨d', hc', hd'⟩ | hc' <;>
    rw [hc, hc'] at h <;> simp only [List.cons_append, List.nil_append, List.cons.injEq] at h
  case inl.inl => exact h
  case inl.inr.inl => exact absurd h.1 hback
  case inl.inr.inr => exact absurd h.1 hback
  case inr.inl.inl => exact absurd h.1.symm hback'
  case inr.inr.inl => exact absurd h.1.symm hback'
  case inr.inl.inr.inl =>
    obtain ⟨-, rfl, hrest⟩ := h
    exact ⟨Option.some.inj (hd.symm.trans hd'), hrest⟩
  case inr.inl.inr.inr =>
    rw [h.2.1] at hd
    cases hd
  case inr.inr.inr.inl =>
    rw [← h.2.1] at hd'
    cases hd'
  case inr.inr.inr.inr =>
    obtain ⟨-, -, -, h⟩ := h
    rw [List.append_assoc, List.append_assoc] at h
    have hclass : ∀ n, ∀ c ∈ hexDigits n, (c ≠ '\x7d' : Bool) :=
      fun n c hc => decide_eq_true (ne_brace_of_mem_hexDigits hc)
    have hend : ∀ rest : List Char, ∀ c ∈ (['\x7d'] ++ rest).head?, (c ≠ '\x7d' : Bool) = false := by
      rintro rest _ ⟨⟩
      rfl
    obtain ⟨hdigits, hrest⟩ :=
      Lexer.append_inj_of_class (hclass _) (hclass _) (hend _) (hend _) h
    exact ⟨Char.toNat_inj.1 (hexDigits_injective hdigits), (List.cons.inj hrest).2⟩

/-- No written form of a character begins with a quote. -/
theorem exists_escape_cons (c : Char) : ∃ d ds, escape c = d :: ds ∧ d ≠ '"' := by
  rcases escape_cases c with ⟨hc, -, hquote⟩ | ⟨d, hc, -⟩ | hc
  · exact ⟨c, [], hc, hquote⟩
  · exact ⟨_, _, hc, by decide⟩
  · exact ⟨_, _, hc, by decide⟩

/-- What is written up to a quote shows the text and where it ends. -/
theorem flatMap_escape_inj {cs cs' rest rest' : List Char}
    (h : cs.flatMap escape ++ '"' :: rest = cs'.flatMap escape ++ '"' :: rest') :
    cs = cs' ∧ rest = rest' := by
  induction cs generalizing cs' with
  | nil =>
    cases cs' with
    | nil => exact ⟨rfl, (List.cons.inj h).2⟩
    | cons c' cs' =>
      obtain ⟨d, ds, hd, hquote⟩ := exists_escape_cons c'
      rw [List.flatMap_cons, hd] at h
      exact absurd (List.cons.inj h).1.symm hquote
  | cons c cs ih =>
    cases cs' with
    | nil =>
      obtain ⟨d, ds, hd, hquote⟩ := exists_escape_cons c
      rw [List.flatMap_cons, hd] at h
      exact absurd (List.cons.inj h).1 hquote
    | cons c' cs' =>
      rw [List.flatMap_cons, List.flatMap_cons, List.append_assoc, List.append_assoc] at h
      obtain ⟨rfl, hchars⟩ := escape_append_inj h
      obtain ⟨rfl, hrest⟩ := ih hchars
      exact ⟨rfl, hrest⟩

/-- A quoted text shows the text and where it ends. -/
theorem quoted_append_inj {s s' : String} {rest rest' : List Char}
    (h : (quoted s).toList ++ rest = (quoted s').toList ++ rest') : s = s' ∧ rest = rest' := by
  rw [quoted, quoted, String.toList_ofList, String.toList_ofList] at h
  simp only [List.cons_append, List.append_assoc, List.nil_append, List.cons.injEq, true_and] at h
  obtain ⟨hchars, hrest⟩ := flatMap_escape_inj h
  exact ⟨String.toList_injective hchars, hrest⟩

end Text

end HostExpr
