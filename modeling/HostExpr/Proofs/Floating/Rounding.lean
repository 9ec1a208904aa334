-- SUMMARY: Integers of more digits than a double has become the nearest multiple of a power of two.
import HostExpr.Floating.Integral
import HostExpr.Decimal.Real
import HostExpr.Proofs.Floating.Content

/-!
# Rounding of large integers

A double has 53 binary digits. An integer of `53 + k` digits is rounded to a number of units of `2 ^ k`
(`toUnits`); only if all of them carry over, the result has one digit more. `roundWithAccuracy` is where
core rounds a magnitude to a format; a magnitude of no more digits than the format has only moves its zeros
between mantissa and exponent (`round_of_targetExponent_eq`, `round_mul_two_pow`).
-/

namespace HostExpr.Floating

open Float.Model (Format UnpackedFloat totalExponent)
open Float.Model.UnpackedFloat

/-! ## Units -/

/-- The nearest number of units, ties to the even one. -/
def toUnits (n unit : Nat) : Nat := Direction.toEven.round false (n / unit) (n % unit) unit

variable {n unit k : Nat}

theorem toUnits_of_lt (h : 2 * (n % unit) < unit) : toUnits n unit = n / unit := by
  unfold toUnits Direction.round
  simp only [Nat.compare_eq_lt.2 h]

theorem toUnits_of_eq (h : 2 * (n % unit) = unit) : toUnits n unit = n / unit + n / unit % 2 := by
  unfold toUnits Direction.round
  simp only [Nat.compare_eq_eq.2 h]

theorem toUnits_of_gt (h : unit < 2 * (n % unit)) : toUnits n unit = n / unit + 1 := by
  unfold toUnits Direction.round
  simp only [Nat.compare_eq_gt.2 h]

theorem toUnits_one (n : Nat) : toUnits n 1 = n := by
  rw [toUnits_of_lt (by rw [Nat.mod_one]; decide), Nat.div_one]

/-- The number of units is one of the two next to the number. -/
theorem toUnits_bounds (n unit : Nat) : n / unit ≤ toUnits n unit ∧ toUnits n unit ≤ n / unit + 1 := by
  rcases Nat.lt_trichotomy (2 * (n % unit)) unit with h | h | h
  · rw [toUnits_of_lt h]
    omega
  · rw [toUnits_of_eq h]
    omega
  · rw [toUnits_of_gt h]
    omega

/-- A finer scale changes nothing. -/
theorem toUnits_mul {c : Nat} (hc : 0 < c) : toUnits (n * c) (unit * c) = toUnits n unit := by
  have hdiv : n * c / (unit * c) = n / unit := Nat.mul_div_mul_right _ _ hc
  have hmod : n * c % (unit * c) = n % unit * c := Nat.mul_mod_mul_right ..
  have hscale : 2 * (n % unit * c) = 2 * (n % unit) * c := (Nat.mul_assoc ..).symm
  rcases Nat.lt_trichotomy (2 * (n % unit)) unit with h | h | h
  · rw [toUnits_of_lt h, toUnits_of_lt, hdiv]
    rw [hmod, hscale]
    exact Nat.mul_lt_mul_of_pos_right h hc
  · rw [toUnits_of_eq h, toUnits_of_eq, hdiv]
    rw [hmod, hscale, h]
  · rw [toUnits_of_gt h, toUnits_of_gt, hdiv]
    rw [hmod, hscale]
    exact Nat.mul_lt_mul_of_pos_right h hc

/-! ## Dropping digits -/

/-- Zeros behind a number make it as many digits longer. -/
theorem log2_mul_two_pow (hne : n ≠ 0) (k : Nat) : (n * 2 ^ k).log2 = n.log2 + k := by
  obtain ⟨hle, hlt⟩ := (Nat.log2_eq_iff hne).1 rfl
  have hscaled : n * 2 ^ k ≠ 0 := Nat.mul_ne_zero hne (Nat.pos_iff_ne_zero.1 (Nat.two_pow_pos k))
  refine (Nat.log2_eq_iff hscaled).2 ⟨?_, ?_⟩
  · rw [Nat.pow_add]
    exact Nat.mul_le_mul_right _ hle
  · rw [Nat.add_right_comm, Nat.pow_add]
    exact Nat.mul_lt_mul_of_pos_right hlt (Nat.two_pow_pos k)

/-- Dropping binary digits keeps the first of them apart, and whether there is another one among the
rest. -/
theorem shiftRight_succ (n k : Nat) : (⟨n, false, false⟩ : ExtendedMantissa) >>> (k + 1) =
    ⟨n / 2 ^ (k + 1), n / 2 ^ k % 2 != 0, n % 2 ^ k != 0⟩ := by
  induction k with
  | zero =>
    show (⟨n / 2, n % 2 != 0, false⟩ : ExtendedMantissa) = _
    simp [Nat.mod_one]
  | succ k ih =>
    have hstep : (⟨n, false, false⟩ : ExtendedMantissa) >>> (k + 1 + 1) =
        ((⟨n, false, false⟩ : ExtendedMantissa) >>> (k + 1)).shiftRightOne := rfl
    rw [hstep, ih]
    delta ExtendedMantissa.shiftRightOne
    dsimp only
    rw [Nat.div_div_eq_div_mul, ← Nat.pow_succ]
    congr 1
    rw [Nat.pow_succ, Nat.mod_mul]
    have := Nat.two_pow_pos k
    rcases Nat.mod_two_eq_zero_or_one (n / 2 ^ k) with h | h
    · simp [h]
    · simp [h]

/-- What is left after dropping digits is rounded to the nearest, ties to even. -/
theorem roundedMantissa_shiftRight (n k : Nat) :
    ((⟨n, false, false⟩ : ExtendedMantissa) >>> k).roundedMantissa = toUnits n (2 ^ k) := by
  cases k with
  | zero =>
    show n = _
    rw [Nat.pow_zero, toUnits_one]
  | succ k =>
    rw [shiftRight_succ]
    have hmod : n % 2 ^ (k + 1) = n % 2 ^ k + 2 ^ k * (n / 2 ^ k % 2) := by
      rw [Nat.pow_succ, Nat.mod_mul]
    have hlt : n % 2 ^ k < 2 ^ k := Nat.mod_lt _ (Nat.two_pow_pos k)
    have hpow : 2 ^ (k + 1) = 2 * 2 ^ k := Nat.pow_succ'
    rcases Nat.mod_two_eq_zero_or_one (n / 2 ^ k) with hbit | hbit
    · rw [hbit, Nat.mul_zero, Nat.add_zero] at hmod
      rw [toUnits_of_lt (by omega), hbit]
      cases n % 2 ^ k != 0 <;> rfl
    · rw [hbit, Nat.mul_one] at hmod
      rw [hbit]
      by_cases hrest : n % 2 ^ k = 0
      · rw [toUnits_of_eq (by omega), hrest]
        rfl
      · rw [toUnits_of_gt (by omega), bne_iff_ne.2 hrest]
        rfl

/-! ## Rounding to a format -/

/-- A magnitude is brought to its exponent by dropping as many digits as that is above its own. -/
theorem shiftToTargetExponent_of_eq {format : Format} {exponent : Int}
    (h : format.targetExponent (totalExponent n exponent) = exponent + k) :
    shiftToTargetExponent format n exponent .exact =
      ((⟨n, false, false⟩ : ExtendedMantissa) >>> k, exponent + k) := by
  delta shiftToTargetExponent shiftToExponent
  dsimp only
  rw [h]
  have hk : (exponent + k - exponent).toNat = k := by omega
  rw [hk]
  rfl

theorem totalExponent_mul_two_pow {exponent : Int} (hpos : 0 < n) :
    totalExponent (n * 2 ^ k) (exponent - k) = totalExponent n exponent := by
  delta totalExponent
  rw [log2_mul_two_pow (Nat.pos_iff_ne_zero.1 hpos)]
  omega

/-- A magnitude that is to have an exponent above its own, and has zeros enough behind it, is not rounded:
the zeros are dropped. -/
theorem roundWithAccuracy_exact {format : Format} (sign : Sign) {exponent : Int} (hpos : 0 < n)
    (h : format.targetExponent (totalExponent n exponent) = exponent) :
    roundWithAccuracy format sign (n * 2 ^ k) (exponent - k) .exact = .finite sign n exponent hpos := by
  have hscaled : format.targetExponent (totalExponent (n * 2 ^ k) (exponent - k)) =
      exponent - k + k := by
    rw [totalExponent_mul_two_pow hpos, h, Int.sub_add_cancel]
  have hexact : format.targetExponent (totalExponent n exponent) = exponent + (0 : Nat) := by
    rw [h, Int.natCast_zero, Int.add_zero]
  have hunits : toUnits (n * 2 ^ k) (2 ^ k) = n := by
    have hscale : toUnits (n * 2 ^ k) (1 * 2 ^ k) = toUnits n 1 := toUnits_mul (Nat.two_pow_pos k)
    rw [Nat.one_mul, toUnits_one] at hscale
    exact hscale
  delta roundWithAccuracy
  dsimp only
  rw [shiftToTargetExponent_of_eq hscaled, Int.sub_add_cancel, roundedMantissa_shiftRight, hunits,
    shiftToTargetExponent_of_eq hexact]
  refine (dif_neg (Nat.pos_iff_ne_zero.1 hpos)).trans ?_
  exact finite_eq rfl rfl (Int.add_zero _)

/-- A magnitude that is to have an exponent below its own is not rounded: zeros come behind it. -/
theorem round_of_targetExponent_eq {format : Format} (sign : Sign) {exponent : Int} (hpos : 0 < n)
    (h : format.targetExponent (totalExponent n exponent) = exponent - k) : ∃ hpos,
      UnpackedFloat.round format sign n exponent = .finite sign (n * 2 ^ k) (exponent - k) hpos := by
  have hpos' : 0 < n * 2 ^ k := Nat.mul_pos hpos (Nat.two_pow_pos k)
  have hexact : format.targetExponent (totalExponent (n * 2 ^ k) (exponent - k)) = exponent - k := by
    rw [totalExponent_mul_two_pow hpos, h]
  have hshift : (exponent - (exponent - k)).toNat = k := by omega
  refine ⟨hpos', ?_⟩
  delta UnpackedFloat.round decreaseExponent
  dsimp only
  rw [h, hshift, Nat.shiftLeft_eq]
  have hround := roundWithAccuracy_exact (k := 0) sign hpos' hexact
  rw [Nat.pow_zero, Nat.mul_one, Int.natCast_zero, Int.sub_zero] at hround
  exact hround

/-- A magnitude that has zeros enough behind it is not rounded: they are dropped. -/
theorem round_mul_two_pow {format : Format} (sign : Sign) {exponent : Int} (hpos : 0 < n)
    (h : format.targetExponent (totalExponent n exponent) = exponent) :
    UnpackedFloat.round format sign (n * 2 ^ k) (exponent - k) = .finite sign n exponent hpos := by
  have hshift : (exponent - k - exponent).toNat = 0 := by omega
  delta UnpackedFloat.round decreaseExponent
  dsimp only
  rw [totalExponent_mul_two_pow hpos, h, hshift, Nat.shiftLeft_zero, Int.natCast_zero, Int.sub_zero]
  exact roundWithAccuracy_exact sign hpos h

theorem targetExponent_eq {exponent : Int} (hlog : n.log2 = 52 + k) (h : -1074 ≤ exponent + k) :
    Format.binary64.targetExponent (totalExponent n exponent) = exponent + k := by
  have hbits : ((Format.binary64.mantissaBits : Nat) : Int) = 53 := rfl
  have hleast : Format.binary64.minExponent = -1074 := rfl
  delta Format.targetExponent totalExponent
  rw [hbits, hleast]
  omega

theorem shiftToTargetExponent_eq {exponent : Int} (hlog : n.log2 = 52 + k)
    (h : -1074 ≤ exponent + k) :
    shiftToTargetExponent Format.binary64 n exponent .exact =
      ((⟨n, false, false⟩ : ExtendedMantissa) >>> k, exponent + k) :=
  shiftToTargetExponent_of_eq (targetExponent_eq hlog h)

/-- A magnitude of `53 + k` digits is rounded to units of `2 ^ k`, or to units of twice that if its number
of units is `2 ^ 53`. -/
theorem roundWithAccuracy_eq (sign : Sign) {exponent : Int} (hlog : n.log2 = 52 + k)
    (h : -1074 ≤ exponent + k) :
    ∃ (mantissa carry : Nat) (hpos : 0 < mantissa),
      roundWithAccuracy Format.binary64 sign n exponent .exact =
        .finite sign mantissa (exponent + k + carry) hpos ∧
      toUnits n (2 ^ k) = mantissa * 2 ^ carry ∧ 2 ^ 52 ≤ mantissa ∧ mantissa < 2 ^ 53 ∧ carry ≤ 1 := by
  have hne : n ≠ 0 := by
    rintro rfl
    rw [Nat.log2_zero] at hlog
    omega
  obtain ⟨hle, hlt⟩ := (Nat.log2_eq_iff hne).1 hlog
  have hpow := Nat.two_pow_pos k
  have hlow : 2 ^ 52 ≤ n / 2 ^ k := by
    rw [Nat.le_div_iff_mul_le hpow, ← Nat.pow_add]
    exact hle
  have hhigh : n / 2 ^ k < 2 ^ 53 := by
    rw [Nat.div_lt_iff_lt_mul hpow, ← Nat.pow_add, Nat.add_comm 53 k]
    rw [Nat.add_comm 52 k] at hlt
    exact hlt
  have hbounds := toUnits_bounds n (2 ^ k)
  delta roundWithAccuracy
  dsimp only
  rw [shiftToTargetExponent_eq hlog h, roundedMantissa_shiftRight]
  by_cases hcarry : toUnits n (2 ^ k) = 2 ^ 53
  · rw [hcarry, shiftToTargetExponent_eq (k := 1) Nat.log2_two_pow (by omega)]
    exact ⟨2 ^ 52, 1, by decide, rfl, rfl, Nat.le_refl _, by decide, Nat.le_refl _⟩
  · have hunits : (toUnits n (2 ^ k)).log2 = 52 + 0 :=
      (Nat.log2_eq_iff (by omega)).2 ⟨by omega, by omega⟩
    rw [shiftToTargetExponent_eq hunits (by omega)]
    refine ⟨toUnits n (2 ^ k), 0, by omega, ?_, (Nat.mul_one _).symm, by omega, by omega, by decide⟩
    exact dif_neg (by show toUnits n (2 ^ k) ≠ 0; omega)

/-! ## Integers -/

/-- A number without a fraction is the integer that it stands for. -/
theorem toInt_finite {sign : Sign} {mantissa exponent : Nat} {hpos : 0 < mantissa}
    {least greatest : Int} :
    (UnpackedFloat.finite sign mantissa exponent hpos).toInt least greatest =
      sign.apply (mantissa * 2 ^ exponent : Nat) := by
  have hshift : ((exponent : Int) - 0).toNat = exponent := by omega
  have hnone : ((0 : Int) - (exponent - (exponent : Nat))).toNat = 0 := by omega
  show roundToInt sign mantissa exponent = _
  delta roundToInt decreaseExponent shiftToExponent
  dsimp only
  rw [hshift, hnone, Nat.shiftLeft_eq]
  rfl

/-- An integer of `53 + k` digits in decimal becomes the nearest multiple of `2 ^ k`, ties to the even
one. -/
theorem toInt_nearest {least greatest : Int} (hlog : n.log2 = 52 + k) (hk : k < 971) :
    (content (Decimal.nearest n 0)).toInt least greatest = (toUnits n (2 ^ k) * 2 ^ k : Nat) := by
  have hne : n ≠ 0 := by
    rintro rfl
    rw [Nat.log2_zero] at hlog
    omega
  have hscaled : (n * 2 ^ 53).log2 = 52 + (k + 53) := by
    rw [log2_mul_two_pow hne, hlog, Nat.add_assoc]
  have hleast : -1074 ≤ (-53 : Int) + (k + 53 : Nat) := by omega
  obtain ⟨mantissa, carry, hpos, hround, hunits, hlow, hhigh, hcarry⟩ :=
    roundWithAccuracy_eq .positive hscaled hleast
  have hexponent : (-53 : Int) + (k + 53 : Nat) + carry = (k + carry : Nat) := by omega
  rw [hexponent] at hround
  have hscientific : UnpackedFloat.ofScientific Format.binary64 n 0 =
      .finite .positive mantissa (k + carry : Nat) hpos := by
    rw [← hround]
    delta UnpackedFloat.ofScientific
    dsimp only
    rw [dif_neg hne, if_neg (by decide), if_neg (by omega), if_pos (by decide)]
    have hbits : Format.binary64.mantissaBits = 53 := rfl
    have hone : 10 ^ (0 : Int).toNat = 1 := rfl
    delta UnpackedFloat.mul
    dsimp only
    rw [hbits, Nat.shiftLeft_eq, hone, Nat.mul_one]
    rfl
  have hcontent : content (Decimal.nearest n 0) = .finite .positive mantissa (k + carry : Nat) hpos := by
    rw [← hscientific]
    refine content_ofModel_pack ?_
    rw [hscientific]
    exact .finite hhigh (by omega) (by omega) (.inl hlow)
  rw [hcontent, toInt_finite]
  have hunits : toUnits n (2 ^ k) = mantissa * 2 ^ carry := by
    rw [← hunits, Nat.pow_add]
    exact (toUnits_mul (by decide)).symm
  rw [hunits, Nat.mul_assoc, ← Nat.pow_add, Nat.add_comm carry]
  rfl

end HostExpr.Floating
