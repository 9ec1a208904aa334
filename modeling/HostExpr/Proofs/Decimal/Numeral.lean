-- SUMMARY: The texts of doubles that are not negative: digits, with a point among them or none.
import HostExpr.Decimal.Real
import HostExpr.Decimal.Shortest
import HostExpr.Proofs.Floating.Content

/-!
# Numerals

The text of a finite double that is not negative is a numeral: digits, with a point between digits at
most once. It has no point if the double has no fraction, as then the double itself lies on the grid of
the integers and no finer grid is tried. A numeral is read as a double that is not negative.
-/

namespace HostExpr

open Float.Model (Format UnpackedFloat)

/-! ## Signs and fractions -/

namespace Floating

/-- The number has a minus. -/
def isNegative : UnpackedFloat → Bool
  | .notANumber => false
  | .infinity sign | .zero sign | .finite sign _ _ _ => sign == .negative

/-- The double is a finite one without a fraction. -/
def isIntegral (x : Float) : Bool :=
  match content x with
  | .notANumber | .infinity _ => false
  | .zero _ => true
  | .finite _ mantissa exponent _ => mantissa % Nat.pow 2 (-exponent).toNat = 0

theorem isNegative_ite {p : Prop} [Decidable p] {x y : UnpackedFloat} (hx : isNegative x = false)
    (hy : isNegative y = false) : isNegative (if p then x else y) = false := by
  by_cases h : p
  · rw [if_pos h, hx]
  · rw [if_neg h, hy]

theorem isNegative_dite {p : Prop} [Decidable p] {x : p → UnpackedFloat} {y : ¬ p → UnpackedFloat}
    (hx : ∀ h, isNegative (x h) = false) (hy : ∀ h, isNegative (y h) = false) :
    isNegative (if h : p then x h else y h) = false := by
  by_cases h : p
  · rw [dif_pos h, hx h]
  · rw [dif_neg h, hy h]

theorem isNegative_roundWithAccuracy (format : Format) (mantissa : Nat) (exponent : Int)
    (accuracy : UnpackedFloat.Accuracy) :
    isNegative (.roundWithAccuracy format .positive mantissa exponent accuracy) = false := by
  unfold UnpackedFloat.roundWithAccuracy
  exact isNegative_dite (fun _ => rfl) fun _ => rfl

/-- What a decimal without a sign is rounded to is not negative. -/
theorem isNegative_ofScientific (format : Format) (mantissa : Nat) (exponent : Int) :
    isNegative (.ofScientific format mantissa exponent) = false := by
  unfold UnpackedFloat.ofScientific
  refine isNegative_dite (fun _ => rfl) fun _ =>
    isNegative_ite rfl (isNegative_ite rfl (isNegative_ite ?product ?quotient))
  case product => exact isNegative_roundWithAccuracy ..
  case quotient => exact isNegative_roundWithAccuracy ..

/-- The sign is the first bit. -/
theorem isNegative_unpack {format : Format} {bits : BitVec format.numBits}
    (h : UnpackedFloat.unpackSign bits = 0#1) : isNegative (.unpack format bits) = false := by
  unfold UnpackedFloat.unpack
  rw [h]
  exact isNegative_ite (isNegative_ite rfl rfl)
    (isNegative_ite (isNegative_dite (fun _ => rfl) fun _ => rfl) rfl)

theorem unpackSign_pack {format : Format} {x : UnpackedFloat} (h : isNegative x = false) :
    UnpackedFloat.unpackSign (UnpackedFloat.pack format x) = 0#1 := by
  cases x with
  | notANumber => exact unpackSign_packComponents
  | infinity sign | zero sign =>
    cases sign
    · cases h
    · exact unpackSign_packComponents
  | finite sign mantissa exponent hpos =>
    cases sign
    · cases h
    · show UnpackedFloat.unpackSign (if _ then _ else if _ then _ else _) = 0#1
      split
      · exact unpackSign_packComponents
      · split <;> exact unpackSign_packComponents

end Floating

namespace Decimal

/-! ## Digits with a point among them -/

/-- Digits, with a point between digits at most once. -/
inductive IsNumeral : List Char → Prop
  | whole {ds : List Char} : ds ≠ [] → (∀ d ∈ ds, isDigit d) → IsNumeral ds
  | fraction {ds es : List Char} : ds ≠ [] → (∀ d ∈ ds, isDigit d) → es ≠ [] →
      (∀ d ∈ es, isDigit d) → IsNumeral (ds ++ '.' :: es)

/-- A numeral begins with a digit. -/
theorem IsNumeral.exists_cons {cs : List Char} (h : IsNumeral cs) :
    ∃ c rest, cs = c :: rest ∧ isDigit c := by
  cases h with
  | whole hne hall | fraction hne hall =>
    obtain ⟨c, ds, rfl⟩ := List.exists_cons_of_ne_nil hne
    exact ⟨c, _, rfl, hall c (List.mem_cons_self ..)⟩

theorem IsNumeral.isDigit_or_point {cs : List Char} (h : IsNumeral cs) :
    ∀ c ∈ cs, isDigit c ∨ c = '.' := by
  cases h with
  | whole _ hall => exact fun c hc => .inl (hall c hc)
  | fraction _ hall _ hall' =>
    refine List.forall_mem_append.2 ⟨fun c hc => .inl (hall c hc), ?_⟩
    exact List.forall_mem_cons.2 ⟨.inr rfl, fun c hc => .inl (hall' c hc)⟩

theorem IsNumeral.append {cs ds : List Char} (h : IsNumeral cs) (hds : ∀ d ∈ ds, isDigit d) :
    IsNumeral (cs ++ ds) := by
  cases h with
  | whole hne hall => exact .whole (by simp [hne]) (List.forall_mem_append.2 ⟨hall, hds⟩)
  | fraction hne hall hne' hall' =>
    rw [List.append_assoc, List.cons_append]
    exact .fraction hne hall (by simp [hne']) (List.forall_mem_append.2 ⟨hall', hds⟩)

theorem isDigit_digits {n : Nat} {c : Char} (h : c ∈ digits n) : isDigit c :=
  Nat.isDigit_of_mem_toDigits (by decide) (by decide) h

theorem isDigit_replicate {n : Nat} {c : Char} (h : c ∈ List.replicate n '0') : isDigit c := by
  cases List.eq_of_mem_replicate h
  rfl

namespace Digits

theorem isNumeral_positional (d : Digits) : IsNumeral d.positional := by
  unfold positional
  have hne : Decimal.digits d.digits ≠ [] := Nat.toDigits_ne_nil
  simp only
  split
  · refine .whole (by simp [hne]) fun c hc => ?_
    rcases List.mem_append.1 hc with hc | hc
    · exact isDigit_digits hc
    · exact isDigit_replicate hc
  · split
    · rename_i hplaces hlt
      refine .fraction ?_ (fun c hc => isDigit_digits (List.mem_of_mem_take hc)) ?_
        fun c hc => isDigit_digits (List.mem_of_mem_drop hc)
      · simp only [ne_eq, List.take_eq_nil_iff, hne, or_false]
        omega
      · simp only [ne_eq, List.drop_eq_nil_iff]
        omega
    · have hwhole : ['0'] ≠ [] := nofun
      have hzero : ∀ c ∈ ['0'], isDigit c := List.all_eq_true.1 rfl
      refine .fraction hwhole hzero (by simp [hne]) fun c hc => ?_
      rcases List.mem_append.1 hc with hc | hc
      · exact isDigit_replicate hc
      · exact isDigit_digits hc

/-- A multiple of one is written without a point. -/
theorem isDigit_positional {d : Digits} (h : 0 ≤ d.exponent) {c : Char} (hc : c ∈ d.positional) :
    isDigit c := by
  unfold positional at hc
  have hplaces : (-d.exponent).toNat = 0 := by omega
  simp only [hplaces, if_true] at hc
  rcases List.mem_append.1 hc with hc | hc
  · exact isDigit_digits hc
  · exact isDigit_replicate hc

end Digits

/-! ## Integers among the shortest decimals -/

namespace Interval

variable {i : Interval}

theorem exponent_onGrid {k : Int} {d : Digits} (h : i.onGrid k = some d) : d.exponent = k := by
  unfold onGrid at h
  extract_lets scale step below part belowHits aboveHits at h
  split at h
  · cases h
    rfl
  · split at h
    · cases h
      rfl
    · cases h

/-- An integer is on the grid of the integers. -/
theorem onGrid_zero_ne_none (hlow : i.low < i.mid)
    (hwhole : i.mid % Nat.pow 2 (-i.exponent).toNat = 0) : i.onGrid 0 ≠ none := by
  unfold onGrid
  extract_lets scale step below part belowHits aboveHits
  have hscale : 0 < scale := Nat.mul_pos (Nat.pow_pos (by decide)) (Nat.pow_pos (by decide))
  have hstep : step = Nat.pow 2 (-i.exponent).toNat := Nat.mul_one _
  have hpos : 0 < step := by
    rw [hstep]
    exact Nat.pow_pos (by decide)
  have hdvd : step ∣ i.mid * scale := by
    rw [hstep]
    exact Nat.dvd_mul_right_of_dvd (Nat.dvd_of_mod_eq_zero hwhole) scale
  have hbelow : below * step = i.mid * scale := Nat.div_mul_cancel hdvd
  have hpart : part = 0 := Nat.mod_eq_zero_of_dvd hdvd
  have hlower : i.low * scale < below * step := by
    rw [hbelow]
    exact Nat.mul_lt_mul_of_pos_right hlow hscale
  have hhits : belowHits := by
    show if i.closed then _ else _
    split
    · exact Nat.le_of_lt hlower
    · exact hlower
  rw [if_pos ⟨hhits, .inr (by omega)⟩]
  nofun

/-- The shortest decimal of an integer is no fraction: the grid of the integers is tried before any
finer one. -/
theorem exponent_shortest_nonneg (hlow : i.low < i.mid)
    (hwhole : i.mid % Nat.pow 2 (-i.exponent).toNat = 0) : 0 ≤ i.shortest.exponent := by
  unfold shortest
  simp only
  generalize htop : gridAbove (i.mid.log2 + 1 + i.exponent) = top
  have htop : 0 ≤ top := by
    have hdvd : 2 ^ (-i.exponent).toNat ∣ i.mid := Nat.dvd_of_mod_eq_zero hwhole
    have hlog : (-i.exponent).toNat ≤ i.mid.log2 :=
      (Nat.le_log2 (by omega)).2 (Nat.le_of_dvd (by omega) hdvd)
    unfold gridAbove at htop
    omega
  cases hfind : (List.range 25).findSome? fun (n : Nat) => i.onGrid (top - n) with
  | none => exact Int.le_refl 0
  | some d =>
    obtain ⟨before, n, after, hrange, hhit, hmiss⟩ := List.findSome?_eq_some_iff.1 hfind
    show 0 ≤ d.exponent
    rw [exponent_onGrid hhit]
    apply Int.not_lt.1
    intro hneg
    -- The grid of the integers was tried before, and it hits.
    have hsorted : (before ++ n :: after).Pairwise (· < ·) := hrange ▸ List.pairwise_lt_range
    have hmem : top.toNat ∈ before ++ n :: after := by
      rw [← hrange, List.mem_range]
      have hn : n ∈ List.range 25 := hrange ▸ by simp
      have := List.mem_range.1 hn
      omega
    have hbefore : top.toNat ∈ before := by
      rcases List.mem_append.1 hmem with h | h
      · exact h
      · rcases List.mem_cons.1 h with h | h
        · omega
        · have := List.rel_of_pairwise_cons (List.pairwise_append.1 hsorted).2.1 h
          omega
    have hzero : top - (top.toNat : Int) = 0 := by omega
    have := hmiss _ hbefore
    rw [hzero] at this
    exact onGrid_zero_ne_none hlow hwhole this

end Interval

theorem Interval.low_lt_mid {leastMantissa mantissa : Nat} {exponent : Int} (h : 0 < mantissa) :
    (ofBinary leastMantissa mantissa exponent).low < (ofBinary leastMantissa mantissa exponent).mid := by
  unfold ofBinary
  simp only
  split <;> omega

/-- Quarters of the last place divide an integer too. -/
theorem Interval.mid_mod_eq_zero {leastMantissa mantissa : Nat} {exponent : Int}
    (h : mantissa % Nat.pow 2 (-exponent).toNat = 0) :
    (ofBinary leastMantissa mantissa exponent).mid %
      Nat.pow 2 (-(ofBinary leastMantissa mantissa exponent).exponent).toNat = 0 := by
  show 4 * mantissa % 2 ^ (-(exponent - 2)).toNat = 0
  have hdvd : 2 ^ (-exponent).toNat ∣ mantissa := Nat.dvd_of_mod_eq_zero h
  have hle : (-(exponent - 2)).toNat ≤ 2 + (-exponent).toNat := by omega
  refine Nat.mod_eq_zero_of_dvd (Nat.dvd_trans (Nat.pow_dvd_pow 2 hle) ?_)
  rw [Nat.pow_add]
  exact Nat.mul_dvd_mul_left _ hdvd

/-! ## Doubles and their texts -/

variable {x : Float}

/-- A number without a minus is written as its shortest decimal. -/
theorem toList_text_positive {leastMantissa mantissa : Nat} {exponent : Int} {hpos : 0 < mantissa} :
    (text leastMantissa (.finite .positive mantissa exponent hpos)).toList =
      (Interval.ofBinary leastMantissa mantissa exponent).shortest.positional :=
  String.toList_ofList

/-- A finite double that is not negative is written as a numeral. -/
theorem isNumeral_ofDouble (hfinite : x.isFinite)
    (hsign : Floating.isNegative (Floating.content x) = false) : IsNumeral (ofDouble x).toList := by
  have hfinite : (Floating.content x).isFinite := hfinite
  unfold ofDouble
  cases hcontent : Floating.content x with
  | notANumber => exact nomatch hcontent ▸ hfinite
  | infinity sign => exact nomatch hcontent ▸ hfinite
  | zero sign =>
    rw [hcontent] at hsign
    cases sign
    · cases hsign
    · exact .whole (by decide) (List.all_eq_true.1 (by decide))
  | finite sign mantissa exponent hpos =>
    rw [hcontent] at hsign
    cases sign
    · cases hsign
    · rw [toList_text_positive]
      exact Digits.isNumeral_positional _

/-- If it has no fraction, no point is written. -/
theorem isDigit_ofDouble (hintegral : Floating.isIntegral x)
    (hsign : Floating.isNegative (Floating.content x) = false) {c : Char}
    (hc : c ∈ (ofDouble x).toList) : isDigit c := by
  unfold Floating.isIntegral at hintegral
  unfold ofDouble at hc
  cases hcontent : Floating.content x with
  | notANumber | infinity sign => simp [hcontent] at hintegral
  | zero sign =>
    rw [hcontent] at hsign hc
    cases sign
    · cases hsign
    · exact List.all_eq_true.1 (by decide : "0".toList.all isDigit) c hc
  | finite sign mantissa exponent hpos =>
    rw [hcontent] at hsign hc hintegral
    cases sign
    · cases hsign
    · rw [toList_text_positive] at hc
      refine Digits.isDigit_positional ?_ hc
      exact Interval.exponent_shortest_nonneg (Interval.low_lt_mid hpos)
        (Interval.mid_mod_eq_zero (of_decide_eq_true hintegral))

theorem toLower_of_isDigit {c : Char} (h : isDigit c) : c.toLower = c := by
  simp only [isDigit, Bool.and_eq_true, decide_eq_true_eq, Char.le_def] at h
  unfold Char.toLower
  grind

/-- No word for an infinity or NaN begins with a digit. -/
theorem special?_of_isDigit {c : Char} {cs : List Char} (hc : isDigit c) :
    special? (c :: cs) = none := by
  have hne : ∀ (d : Char) (word : List Char), isDigit d = false →
      String.ofList ((c :: cs).map Char.toLower) ≠ String.ofList (d :: word) := by
    intro d word hd heq
    have hchars := String.ofList_injective heq
    rw [List.map_cons, toLower_of_isDigit hc] at hchars
    cases hchars
    cases hc.symm.trans hd
  have hinf := hne 'i' ['n', 'f'] rfl
  have hinfinity := hne 'i' ['n', 'f', 'i', 'n', 'i', 't', 'y'] rfl
  have hnan := hne 'n' ['a', 'n'] rfl
  unfold special?
  simp only
  rw [if_neg (not_or.2 ⟨hinf, hinfinity⟩), if_neg hnan]

/-- No sign begins with a digit. -/
theorem splitSign_of_isDigit {c : Char} {cs : List Char} (hc : isDigit c) :
    splitSign (c :: cs) = (false, c :: cs) := by
  unfold splitSign
  split
  · cases ‹_ = _›
    cases hc
  · cases ‹_ = _›
    cases hc
  · rfl

/-- What begins with a digit has no sign and is no word. -/
theorem double?_of_isDigit {c : Char} {cs : List Char} (hc : isDigit c) :
    double? (c :: cs) = (scientific? (c :: cs)).map fun n => nearest n.1 n.2 := by
  unfold double?
  rw [splitSign_of_isDigit hc]
  simp only [special?_of_isDigit hc, Option.map_map]
  rfl

/-- The texts of singles are those of doubles; only the rounding differs. -/
theorem isSome_single? (cs : List Char) : (single? cs).isSome = (double? cs).isSome := by
  unfold single? double?
  simp only [Option.isSome_map]
  cases special? (splitSign cs).2 <;> simp only [Option.isSome_map, Option.isSome_some]

/-- A decimal without a sign is read as a double that is not negative. -/
theorem isNegative_nearest (mantissa : Nat) (exponent : Int) :
    Floating.isNegative (Floating.content (nearest mantissa exponent)) = false :=
  Floating.isNegative_unpack (Floating.unpackSign_pack (Floating.isNegative_ofScientific _ _ _))

end Decimal

end HostExpr
