-- SUMMARY: Which integers come back exactly from their decimal texts.
import HostExpr.Conversion
import HostExpr.Proofs.Decimal.Integer
import HostExpr.Proofs.Floating.Rounding

/-!
# Integers from text

The decimal text of an integer is read as a signed word of 64 bits. What does not fit into one goes through
a double, which keeps the first 53 binary digits: of the integers of a kind, only those of the unsigned kind
of 64 bits from `2 ^ 63` on. They become multiples of `2 ^ 11`, or the greatest number of the kind.
-/

namespace HostExpr

/-! ## Blanks around a text -/

namespace Text

theorem dropWhile_isBlank {before cs : List Char} (hbefore : ∀ c ∈ before, isBlank c)
    (hcs : ∀ c ∈ cs.head?, isBlank c = false) : (before ++ cs).dropWhile isBlank = cs := by
  rw [List.dropWhile_append_of_pos hbefore]
  cases cs with
  | nil => rfl
  | cons c cs => rw [List.dropWhile_cons, hcs c rfl]; rfl

/-- Blanks at the ends of a text without blanks are dropped, and nothing else. -/
theorem trimChars_eq {before cs after : List Char} (hbefore : ∀ c ∈ before, isBlank c)
    (hne : cs ≠ []) (hcs : ∀ c ∈ cs, isBlank c = false) (hafter : ∀ c ∈ after, isBlank c) :
    trimChars (before ++ cs ++ after) = cs := by
  have hfirst : ∀ c ∈ (cs ++ after).head?, isBlank c = false := by
    obtain ⟨c, cs, rfl⟩ := List.exists_cons_of_ne_nil hne
    rintro _ ⟨⟩
    exact hcs c (List.mem_cons_self ..)
  have hlast : ∀ c ∈ cs.reverse.head?, isBlank c = false := fun c hc =>
    hcs c (List.mem_reverse.1 (List.mem_of_mem_head? hc))
  have hblanks : ∀ c ∈ after.reverse, isBlank c := fun c hc => hafter c (List.mem_reverse.1 hc)
  unfold trimChars
  rw [List.append_assoc, dropWhile_isBlank hbefore hfirst, List.reverse_append,
    dropWhile_isBlank hblanks hlast, List.reverse_reverse]

end Text

/-! ## Words and integers -/

/-- An integer of the kind is what its word stands for. -/
theorem IntegerKind.toInt_ofInt {k : IntegerKind} {n : Int} (hleast : k.least ≤ n)
    (hgreatest : n ≤ k.greatest) : k.toInt (.ofInt k.width n) = n := by
  unfold least at hleast
  unfold greatest at hgreatest
  cases k
  all_goals
    simp [isSigned, width] at hleast hgreatest
    simp [toInt, isSigned, width, BitVec.toInt_ofInt, Int.bmod_def]
    omega

namespace Number

/-- The text of an integer of the kind is its decimal. -/
theorem text_ofInt {k : IntegerKind} {n : Int} (hleast : k.least ≤ n) (hgreatest : n ≤ k.greatest) :
    (ofInt k n).text = Decimal.ofInt n :=
  congrArg Decimal.ofInt (IntegerKind.toInt_ofInt hleast hgreatest)

/-- Two integers of the kind are the same number only if they are the same. -/
theorem ofInt_inj {k : IntegerKind} {m n : Int} (hm : k.least ≤ m) (hm' : m ≤ k.greatest)
    (hn : k.least ≤ n) (hn' : n ≤ k.greatest) : ofInt k m = ofInt k n ↔ m = n := by
  refine ⟨fun h => ?_, congrArg _⟩
  unfold ofInt at h
  injection h with _ hword
  rw [← IntegerKind.toInt_ofInt hm hm', hword, IntegerKind.toInt_ofInt hn hn']

end Number

/-! ## Reading an integer -/

namespace Conversion

open Floating

theorem isBlank_of_isDigit {c : Char} (h : Decimal.isDigit c) : Text.isBlank c = false := by
  simp only [Decimal.isDigit, Bool.and_eq_true, decide_eq_true_eq, Char.le_def,
    UInt32.le_iff_toNat_le] at h
  have hlow : 48 ≤ c.toNat := h.1
  have hhigh : c.toNat ≤ 57 := h.2
  simp [Text.isBlank]
  omega

/-- A character of an integer is no blank. -/
theorem isBlank_integerChars {n : Int} {c : Char} (h : c ∈ Decimal.integerChars n) :
    Text.isBlank c = false := by
  unfold Decimal.integerChars Decimal.signed at h
  split at h
  · rcases List.mem_cons.1 h with rfl | h
    · rfl
    · exact isBlank_of_isDigit (Decimal.isDigit_digits h)
  · exact isBlank_of_isDigit (Decimal.isDigit_digits h)

theorem integerChars_ne_nil (n : Int) : Decimal.integerChars n ≠ [] := by
  unfold Decimal.integerChars Decimal.signed
  split
  · exact List.cons_ne_nil _ _
  · exact Nat.toDigits_ne_nil

/-- The decimal is read back exactly: it fits into a signed word, or a double has enough digits for it, or
it is as good as the greatest number of the kind. -/
def ReadsExactly (n : Int) : Prop :=
  n ≤ Int64.maxValue.toInt ∨ 2048 ∣ n ∨ n = IntegerKind.ulong.greatest

/-- The text of an integer between blanks. -/
def integerText (before : List Char) (n : Int) (after : List Char) : String :=
  .ofList (before ++ Decimal.integerChars n ++ after)

/-- What fits into a signed word is read as it is. -/
theorem number_of_le {k : IntegerKind} {n : Int} {text : String}
    (htext : Text.trim text = Decimal.ofInt n) (hleast : Int64.minValue.toInt ≤ n)
    (hgreatest : n ≤ Int64.maxValue.toInt) : number text (.integer k) = .ok (.ofInt k n) := by
  have hlong : IntegerKind.long.toInt (.ofInt 64 n) = n :=
    IntegerKind.toInt_ofInt (k := .long) hleast hgreatest
  unfold number
  dsimp only
  rw [htext, Decimal.ofInt, String.toList_ofList, Decimal.int64?_integerChars,
    if_pos ⟨hleast, hgreatest⟩]
  show Except.ok (Number.ofInt k (IntegerKind.long.toInt (.ofInt 64 (Int64.ofInt n).toInt))) = _
  rw [Int64.toInt_ofInt_of_le hleast (Int.lt_of_le_of_lt hgreatest (by decide)), hlong]

/-- What does not, is read as a double. -/
theorem number_of_gt {k : IntegerKind} {n : Nat} {text : String}
    (htext : Text.trim text = Decimal.ofInt n) (h : Int64.maxValue.toInt < n) :
    number text (.integer k) = .ok (.ofDouble (.integer k) (Decimal.nearest n 0)) := by
  have hchars : Decimal.integerChars n = Decimal.digits n := rfl
  unfold number
  dsimp only
  rw [htext, Decimal.ofInt, String.toList_ofList, Decimal.int64?_integerChars, if_neg (by omega),
    hchars, Decimal.double?_digits]
  rfl

theorem trim_integerText {before after : List Char} {n : Int}
    (hbefore : ∀ c ∈ before, Text.isBlank c) (hafter : ∀ c ∈ after, Text.isBlank c) :
    Text.trim (integerText before n after) = Decimal.ofInt n := by
  unfold Text.trim integerText
  rw [String.toList_ofList, Text.trimChars_eq hbefore (integerChars_ne_nil n)
    (fun _ => isBlank_integerChars) hafter]
  rfl

/-- An integer of 64 binary digits becomes a multiple of `2 ^ 11` within the bounds of its kind. -/
theorem ofDouble_ulong {n : Nat} (hlow : 2 ^ 63 ≤ n) (hhigh : n < 2 ^ 64) :
    Number.ofDouble (.integer .ulong) (Decimal.nearest n 0) =
      .ofInt .ulong (min IntegerKind.ulong.greatest (toUnits n (2 ^ 11) * 2 ^ 11 : Nat)) := by
  have hlog : n.log2 = 52 + 11 := (Nat.log2_eq_iff (by omega)).2 ⟨by omega, by omega⟩
  show Number.ofInt .ulong (clamp _ _ ((content (Decimal.nearest n 0)).toInt _ _)) = _
  rw [toInt_nearest hlog (by decide)]
  refine congrArg (Number.ofInt .ulong) ?_
  unfold clamp
  have hleast : IntegerKind.ulong.least = 0 := rfl
  have hgreatest : IntegerKind.ulong.greatest = 18446744073709551615 := rfl
  omega

/-- Of the integers of 64 binary digits, the multiples of `2 ^ 11` and the greatest one stay as they
are. -/
theorem min_toUnits_eq_iff {n : Nat} (hhigh : n < 2 ^ 64) :
    min IntegerKind.ulong.greatest (toUnits n (2 ^ 11) * 2 ^ 11 : Nat) = n ↔
      2048 ∣ (n : Int) ∨ (n : Int) = IntegerKind.ulong.greatest := by
  have hgreatest : IntegerKind.ulong.greatest = 18446744073709551615 := rfl
  constructor
  · intro h
    by_cases hle : (toUnits n (2 ^ 11) * 2 ^ 11 : Nat) ≤ IntegerKind.ulong.greatest
    · exact .inl (by omega)
    · exact .inr (by omega)
  · rintro (hdvd | htop)
    · have hmod : n % 2 ^ 11 = 0 := by omega
      rw [toUnits_of_lt (by omega)]
      omega
    · obtain rfl : n = 18446744073709551615 := by omega
      rfl

end Conversion

/-- An integer of a kind is read exactly if it is one that `ReadsExactly` admits. -/
theorem Conversion.number_eq_ofInt_iff {k : IntegerKind} {n : Int} {text : String}
    (htext : Text.trim text = Decimal.ofInt n) (hleast : k.least ≤ n) (hgreatest : n ≤ k.greatest) :
    number text (.integer k) = .ok (.ofInt k n) ↔ ReadsExactly n := by
  have hmax : Int64.maxValue.toInt = 9223372036854775807 := rfl
  by_cases hfits : n ≤ Int64.maxValue.toInt
  · have hwide : Int64.minValue.toInt ≤ k.least := by cases k <;> decide
    exact iff_of_true (number_of_le htext (Int.le_trans hwide hleast) hfits) (.inl hfits)
  · have hulong : k = .ulong := by
      cases k with
      | ulong => rfl
      | _ => exact absurd (Int.le_trans hgreatest (by decide)) hfits
    subst hulong
    have htop : IntegerKind.ulong.greatest = 18446744073709551615 := rfl
    obtain ⟨n, rfl⟩ := Int.eq_ofNat_of_zero_le (show 0 ≤ n from hleast)
    rw [number_of_gt htext (Int.not_le.1 hfits), ofDouble_ulong (by omega) (by omega)]
    have hrounded : (0 : Int) ≤ min IntegerKind.ulong.greatest (Floating.toUnits n (2 ^ 11) * 2 ^ 11 : Nat) := by
      omega
    rw [Except.ok.injEq, Number.ofInt_inj hrounded (Int.min_le_left ..) hleast hgreatest,
      min_toUnits_eq_iff (by omega)]
    exact (or_iff_right hfits).symm

/-- The decimal text of an integer of a kind, between any blanks, is read as that integer exactly if it is
one that `ReadsExactly` admits; and so is the text that the number itself is converted to. -/
theorem convert_integerText_iff {k : IntegerKind} {n : Int} (hleast : k.least ≤ n)
    (hgreatest : n ≤ k.greatest) {before after : List Char} (hbefore : ∀ c ∈ before, Text.isBlank c)
    (hafter : ∀ c ∈ after, Text.isBlank c) :
    (convert (.string (Conversion.integerText before n after)) (.number (.integer k)) =
      .ok (.number (.ofInt k n)) ↔ Conversion.ReadsExactly n) ∧
    ((convert (.number (.ofInt k n)) .string >>= fun text => convert text (.number (.integer k))) =
      .ok (.number (.ofInt k n)) ↔ Conversion.ReadsExactly n) := by
  have hreads : ∀ text, Text.trim text = Decimal.ofInt n →
      (convert (.string text) (.number (.integer k)) = .ok (.number (.ofInt k n)) ↔
        Conversion.ReadsExactly n) := by
    intro text htext
    rw [← Conversion.number_eq_ofInt_iff htext hleast hgreatest]
    show Value.number <$> Conversion.number text (.integer k) = _ ↔ _
    cases Conversion.number text (.integer k) with
    | error e => exact ⟨nofun, nofun⟩
    | ok m =>
      show Except.ok (Value.number m) = _ ↔ _
      rw [Except.ok.injEq, Value.number.injEq, Except.ok.injEq]
  refine ⟨hreads _ (Conversion.trim_integerText hbefore hafter), ?_⟩
  have htext : convert (.number (.ofInt k n)) .string = .ok (.string (Decimal.ofInt n)) :=
    congrArg (fun text => Except.ok (Value.string text)) (Number.text_ofInt hleast hgreatest)
  have htrim : Text.trim (Decimal.ofInt n) = Decimal.ofInt n := by
    have h := Conversion.trim_integerText (n := n) (List.forall_mem_nil _) (List.forall_mem_nil _)
    rwa [Conversion.integerText, List.nil_append, List.append_nil] at h
  have hbind : ∀ (v : Value) (f : Value → Except String Value), (Except.ok v >>= f) = f v :=
    fun _ _ => rfl
  rw [htext, hbind]
  exact hreads _ htrim

/-- A negative integer with blanks around it. -/
theorem convert_integerText_negative :
    convert (.string " -7\n") (.number (.integer .int)) = .ok (.number (.ofInt .int (-7))) ∧
      (convert (.number (.ofInt .int (-7))) .string >>= fun text => convert text (.number .int)) =
        .ok (.number (.ofInt .int (-7))) := by
  have hblank : ∀ c, Text.isBlank c → ∀ d ∈ [c], Text.isBlank d := fun c hc =>
    List.forall_mem_singleton.2 hc
  have hiff := convert_integerText_iff (k := .int) (n := -7) (by decide) (by decide)
    (hblank ' ' rfl) (hblank '\n' rfl)
  have hexact : Conversion.ReadsExactly (-7) := .inl (by decide)
  exact ⟨hiff.1.2 hexact, hiff.2.2 hexact⟩

/-- An integer past the signed words is rounded to an even one. -/
theorem not_convert_integerText :
    convert (.string "9223372036854775809") (.number (.integer .ulong)) =
        .ok (.number (.ofInt .ulong 9223372036854775808)) ∧
      Number.ofInt .ulong 9223372036854775808 ≠ .ofInt .ulong 9223372036854775809 := by
  have hnumber : (Conversion.number "9223372036854775809" (.integer .ulong)).toOption =
      some (.ofInt .ulong 9223372036854775808) := by decide +kernel
  constructor
  · show Value.number <$> Conversion.number "9223372036854775809" (.integer .ulong) = _
    cases h : Conversion.number "9223372036854775809" (.integer .ulong) with
    | error e =>
      rw [h] at hnumber
      cases hnumber
    | ok m =>
      rw [h] at hnumber
      cases hnumber
      rfl
  · decide

end HostExpr
