-- SUMMARY: Which integers come back from the nearest double.
import HostExpr.Proofs.Floating.Rounding

/-!
# Integers held by doubles

A double holds an integer if 53 binary digits are enough for it, but for zeros behind them (`Holds`).
Any other integer becomes the nearest multiple of the last place of a double of its size, and does not
come back from it.

The greatest signed word of 64 bits is an exception that the bounds make: the nearest double is past the
words, and brought back within the bounds it is that word again.
-/

namespace HostExpr.Floating

open Float.Model (Format UnpackedFloat totalExponent)
open Float.Model.UnpackedFloat

variable {n unit k : Nat}

/-! ## Whole numbers of units -/

/-- A whole number of units stays as it is, and no other number does. -/
theorem toUnits_mul_eq_iff (hunit : 0 < unit) : toUnits n unit * unit = n ↔ unit ∣ n := by
  constructor
  · intro h
    exact ⟨toUnits n unit, by rw [Nat.mul_comm]; exact h.symm⟩
  · rintro ⟨c, rfl⟩
    have hmod : unit * c % unit = 0 := Nat.mul_mod_right ..
    rw [toUnits_of_lt (by omega), Nat.mul_div_cancel_left _ hunit, Nat.mul_comm]

/-- A number is not rounded past a whole number of units. -/
theorem toUnits_mul_le {bound : Nat} (hunit : 0 < unit) (hbound : unit ∣ bound) (hle : n ≤ bound) :
    toUnits n unit * unit ≤ bound := by
  rcases Nat.eq_or_lt_of_le hle with rfl | hlt
  · exact Nat.le_of_eq ((toUnits_mul_eq_iff hunit).2 hbound)
  · obtain ⟨units, rfl⟩ := hbound
    have hdiv : n / unit < units := (Nat.div_lt_iff_lt_mul hunit).2 (by rw [Nat.mul_comm]; exact hlt)
    have hbounds := toUnits_bounds n unit
    rw [Nat.mul_comm unit]
    exact Nat.mul_le_mul_right unit (by omega)

/-! ## The integer that a double is -/

/-- A number with digits behind the point is the integer that is left without them. -/
theorem toInt_finite_of_places {sign : Sign} {mantissa places : Nat} {hpos : 0 < mantissa}
    {least greatest : Int} :
    (UnpackedFloat.finite sign mantissa (-(places : Int)) hpos).toInt least greatest =
      sign.apply (mantissa / 2 ^ places : Nat) := by
  have hnone : (-(places : Int) - 0).toNat = 0 := by omega
  have hshift : ((0 : Int) - (-(places : Int) - (0 : Nat))).toNat = places := by omega
  show roundToInt sign mantissa (-places) = _
  delta roundToInt decreaseExponent shiftToExponent
  dsimp only
  rw [hnone, hshift, Nat.shiftLeft_eq, Nat.pow_zero, Nat.mul_one]
  cases places with
  | zero =>
    rw [Nat.pow_zero, Nat.div_one]
    rfl
  | succ places =>
    have hrest := shiftRight_succ mantissa places
    exact congrArg (fun em => sign.apply (ExtendedMantissa.mantissa em : Nat)) hrest

/-- A number that stands for an integer is that integer, wherever the point stands. -/
theorem toInt_finite_of_eq {sign : Sign} {mantissa places : Nat} {hpos : 0 < mantissa}
    {exponent least greatest : Int} (hexponent : exponent = k - places)
    (h : mantissa * 2 ^ k = n * 2 ^ places) :
    (UnpackedFloat.finite sign mantissa exponent hpos).toInt least greatest = sign.apply n := by
  subst hexponent
  rcases Nat.le_total places k with hle | hle
  · obtain ⟨k, rfl⟩ := Nat.exists_eq_add_of_le hle
    have hexponent : ((places + k : Nat) : Int) - places = (k : Nat) := by omega
    rw [Nat.add_comm, Nat.pow_add, ← Nat.mul_assoc] at h
    rw [hexponent, toInt_finite, Nat.eq_of_mul_eq_mul_right (Nat.two_pow_pos places) h]
  · obtain ⟨places, rfl⟩ := Nat.exists_eq_add_of_le hle
    have hexponent : (k : Int) - (k + places : Nat) = -(places : Int) := by omega
    rw [Nat.add_comm, Nat.pow_add, ← Nat.mul_assoc] at h
    rw [hexponent, toInt_finite_of_places, Nat.eq_of_mul_eq_mul_right (Nat.two_pow_pos k) h,
      Nat.mul_div_cancel _ (Nat.two_pow_pos places)]

/-! ## The nearest double to an integer -/

/-- An integer gets the digits behind the point that it lacks of 53, and then it is rounded. -/
theorem round_eq (sign : Sign) (n : Nat) :
    UnpackedFloat.round Format.binary64 sign n 0 =
      roundWithAccuracy Format.binary64 sign (n * 2 ^ (52 - n.log2)) (-(52 - n.log2 : Nat))
        .exact := by
  have hbits : ((Format.binary64.mantissaBits : Nat) : Int) = 53 := rfl
  have hleast : Format.binary64.minExponent = -1074 := rfl
  have htarget : Format.binary64.targetExponent (totalExponent n 0) = n.log2 - 52 := by
    delta Format.targetExponent totalExponent
    rw [hbits, hleast]
    omega
  have hshift : (0 - ((n.log2 : Int) - 52)).toNat = 52 - n.log2 := by omega
  delta UnpackedFloat.round decreaseExponent
  dsimp only
  rw [htarget, hshift, Nat.shiftLeft_eq, Int.zero_sub]

/-- An integer becomes the nearest multiple of the last place of a double of its size, ties to the even
one. -/
theorem toInt_nearest_natural (sign : Sign) {least greatest : Int} (hne : n ≠ 0)
    (hlog : n.log2 ≤ 1000) :
    (content (nearest sign n 0)).toInt least greatest =
      sign.apply (toUnits n (2 ^ (n.log2 - 52)) * 2 ^ (n.log2 - 52) : Nat) := by
  have hscaled : (n * 2 ^ (52 - n.log2)).log2 = 52 + (n.log2 - 52) := by
    rw [log2_mul_two_pow hne]
    omega
  have hleast : -1074 ≤ -((52 - n.log2 : Nat) : Int) + (n.log2 - 52 : Nat) := by omega
  obtain ⟨mantissa, carry, hpos, hround, hunits, hlow, hhigh, hcarry⟩ :=
    roundWithAccuracy_eq sign hscaled hleast
  rw [← round_eq sign] at hround
  have hcontent : content (nearest sign n 0) = _ := content_ofModel_pack (by
    rw [hround]
    exact .finite hhigh (by omega) (by omega) (.inl hlow))
  have hexponent : -((52 - n.log2 : Nat) : Int) + (n.log2 - 52 : Nat) + carry =
      (n.log2 - 52 + carry : Nat) - (52 - n.log2 : Nat) := by omega
  rw [hcontent, hround]
  refine toInt_finite_of_eq hexponent ?_
  -- A number of 53 digits or more gets none behind the point, and one of fewer is not rounded.
  rcases Nat.le_total 52 n.log2 with hlarge | hsmall
  · rw [Nat.sub_eq_zero_of_le hlarge, Nat.pow_zero, Nat.mul_one] at hunits ⊢
    rw [hunits, Nat.mul_assoc, ← Nat.pow_add, Nat.add_comm carry]
  · rw [Nat.sub_eq_zero_of_le hsmall, Nat.pow_zero, toUnits_one] at hunits ⊢
    rw [Nat.mul_one, Nat.zero_add, hunits]

theorem ofInt_of_neg {n : Int} (h : n < 0) : ofInt n = nearest .negative n.natAbs 0 := by
  have habs : n.natAbs = (-n).toNat := by omega
  have hcompare : compare n 0 = .lt := Int.compare_eq_lt.2 h
  show Float.ofModel (.pack (UnpackedFloat.normalize Format.binary64 n 0 .positive)) = _
  delta UnpackedFloat.normalize
  rw [hcompare, habs]
  rfl

theorem ofInt_of_pos {n : Int} (h : 0 < n) : ofInt n = nearest .positive n.natAbs 0 := by
  have habs : n.natAbs = n.toNat := by omega
  have hcompare : compare n 0 = .gt := Int.compare_eq_gt.2 h
  show Float.ofModel (.pack (UnpackedFloat.normalize Format.binary64 n 0 .positive)) = _
  delta UnpackedFloat.normalize
  rw [hcompare, habs]
  rfl

/-- What a double keeps of an integer: the sign, and the magnitude as a whole number of last places. -/
theorem toInt_ofInt {n least greatest : Int} (hlog : n.natAbs.log2 ≤ 1000) :
    (content (ofInt n)).toInt least greatest =
      n.sign * (toUnits n.natAbs (2 ^ (n.natAbs.log2 - 52)) * 2 ^ (n.natAbs.log2 - 52) : Nat) := by
  rcases Int.lt_trichotomy n 0 with hneg | rfl | hpos
  · rw [ofInt_of_neg hneg, toInt_nearest_natural _ (by omega) hlog, Int.sign_eq_neg_one_of_neg hneg,
      Int.neg_one_mul]
    rfl
  · rfl
  · rw [ofInt_of_pos hpos, toInt_nearest_natural _ (by omega) hlog, Int.sign_eq_one_of_pos hpos,
      Int.one_mul]
    rfl

/-! ## Integers that come back -/

/-- Fifty-three binary digits are enough for the integer, but for zeros behind them. -/
def Holds (n : Int) : Prop :=
  ∃ mantissa exponent : Nat, n.natAbs = mantissa * 2 ^ exponent ∧ mantissa < 2 ^ 53

/-- A double holds an integer if that is a multiple of the last place of a double of its size. -/
theorem holds_iff_dvd {n : Int} : Holds n ↔ 2 ^ (n.natAbs.log2 - 52) ∣ n.natAbs := by
  constructor
  · rintro ⟨mantissa, exponent, hn, hlt⟩
    rw [hn]
    by_cases hne : mantissa = 0
    · rw [hne, Nat.zero_mul]
      exact Nat.dvd_zero _
    · have hlog : mantissa.log2 < 53 := (Nat.log2_lt hne).2 hlt
      rw [log2_mul_two_pow hne]
      exact Nat.dvd_mul_left_of_dvd (Nat.pow_dvd_pow 2 (by omega)) mantissa
  · rintro ⟨mantissa, hn⟩
    refine ⟨mantissa, n.natAbs.log2 - 52, by rw [Nat.mul_comm]; exact hn, ?_⟩
    refine Nat.lt_of_not_le fun hge => ?_
    have hlow : 2 ^ 53 * 2 ^ (n.natAbs.log2 - 52) ≤ n.natAbs := by
      conv => rhs; rw [hn, Nat.mul_comm]
      exact Nat.mul_le_mul_right _ hge
    have hne : n.natAbs ≠ 0 := by
      have := Nat.two_pow_pos (n.natAbs.log2 - 52)
      omega
    rw [← Nat.pow_add] at hlow
    have hlog := (Nat.le_log2 hne).2 hlow
    omega

/-- An integer of 53 binary digits at most, within the bounds, comes back from its double. -/
theorem truncate_ofInt {n least greatest : Int} (hsmall : n.natAbs < 2 ^ 53) (hleast : least ≤ n)
    (hgreatest : n ≤ greatest) : truncate least greatest (ofInt n) = n := by
  have hlog : n.natAbs.log2 ≤ 52 := by
    by_cases hzero : n.natAbs = 0
    · rw [hzero]
      decide
    · exact Nat.le_of_lt_succ ((Nat.log2_lt hzero).2 hsmall)
  unfold truncate clamp
  rw [toInt_ofInt (by omega), Nat.sub_eq_zero_of_le hlog, Nat.pow_zero, Nat.mul_one, toUnits_one,
    Int.sign_mul_natAbs]
  omega

/-- A signed word of 64 bits comes back from the nearest double if a double holds it, or if it is the
greatest one. -/
theorem truncate_ofInt_eq_iff {n : Int} (hleast : Int64.minValue.toInt ≤ n)
    (hgreatest : n ≤ Int64.maxValue.toInt) :
    truncate Int64.minValue.toInt Int64.maxValue.toInt (ofInt n) = n ↔
      Holds n ∨ n = Int64.maxValue.toInt := by
  have hmin : Int64.minValue.toInt = -9223372036854775808 := rfl
  have hmax : Int64.maxValue.toInt = 9223372036854775807 := rfl
  have hlog : n.natAbs.log2 ≤ 63 := by
    by_cases hzero : n.natAbs = 0
    · rw [hzero]
      decide
    · exact Nat.le_of_lt_succ ((Nat.log2_lt hzero).2 (by omega))
  have hunit : 0 < 2 ^ (n.natAbs.log2 - 52) := Nat.two_pow_pos _
  have hbound : 2 ^ (n.natAbs.log2 - 52) ∣ 2 ^ 63 := Nat.pow_dvd_pow 2 (by omega)
  have hle := toUnits_mul_le hunit hbound (show n.natAbs ≤ 2 ^ 63 by omega)
  have hexact := toUnits_mul_eq_iff (n := n.natAbs) hunit
  rw [holds_iff_dvd, ← hexact]
  unfold truncate clamp
  rw [toInt_ofInt (by omega)]
  rcases Int.lt_trichotomy n 0 with hneg | rfl | hpos
  · -- The rounded magnitude is at most `2 ^ 63`, so the lower bound moves nothing.
    rw [Int.sign_eq_neg_one_of_neg hneg]
    omega
  · decide
  · rw [Int.sign_eq_one_of_pos hpos]
    by_cases htop : n = Int64.maxValue.toInt
    · subst htop
      decide
    · omega

end HostExpr.Floating
