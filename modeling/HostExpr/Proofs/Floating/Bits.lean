-- SUMMARY: What the bits of a floating-point format hold, and that they are known by what they hold.
import Mathlib.Algebra.Group.Nat.Defs
import HostExpr.Floating.Exact

/-!
# Bits of floating-point formats

A format with `p` stored digits and more than one bit of exponent holds NaN, the infinities, the zeros, and
the numbers in canonical form: a mantissa of `p + 1` digits, or one of fewer digits and the least exponent.
What is canonical is packed to bits that hold it (`unpack_pack`), and bits come back from what they hold
(`pack_unpack`), as there is a single NaN.
-/

namespace HostExpr.Floating

open Float.Model (Format UnpackedFloat)
open Float.Model.UnpackedFloat

/-- What the bits of a format can hold. -/
inductive Canonical (format : Format) : UnpackedFloat → Prop
  | notANumber : Canonical format .notANumber
  | infinity (sign : Sign) : Canonical format (.infinity sign)
  | zero (sign : Sign) : Canonical format (.zero sign)
  | finite {sign : Sign} {mantissa : Nat} {exponent : Int} {hpos : 0 < mantissa} :
      mantissa < 2 ^ (format.mantissaBitsWithoutImplicit + 1) →
      1 ≤ exponent + (format.exponentBias + format.mantissaBitsWithoutImplicit) →
      (exponent + (format.exponentBias + format.mantissaBitsWithoutImplicit)).toNat + 1 <
        2 ^ format.exponentBits →
      2 ^ format.mantissaBitsWithoutImplicit ≤ mantissa ∨
        exponent = 1 - (format.exponentBias + format.mantissaBitsWithoutImplicit) →
      Canonical format (.finite sign mantissa exponent hpos)

theorem finite_eq {sign sign' : Sign} {mantissa mantissa' : Nat} {exponent exponent' : Int}
    {hpos : 0 < mantissa} {hpos' : 0 < mantissa'} (hsign : sign = sign')
    (hmantissa : mantissa = mantissa') (hexponent : exponent = exponent') :
    UnpackedFloat.finite sign mantissa exponent hpos =
      .finite sign' mantissa' exponent' hpos' := by
  subst hsign hmantissa hexponent
  rfl

variable {format : Format}

/-! ## Sign, exponent and mantissa -/

theorem toBitVec_ofBitVec (b : BitVec 1) : (Sign.ofBitVec b).toBitVec = b := by
  revert b
  decide

/-- The sign is the first bit. -/
theorem unpackSign_packComponents {sign : Sign} {exponent : BitVec format.exponentBits}
    {mantissa : BitVec format.mantissaBitsWithoutImplicit} :
    unpackSign (packComponents format sign exponent mantissa) = sign.toBitVec := by
  ext i hi
  obtain rfl : i = 0 := by omega
  delta unpackSign packComponents
  simp [BitVec.getLsbD_append, BitVec.getElem_append]

theorem sign_packComponents {sign : Sign} {exponent : BitVec format.exponentBits}
    {mantissa : BitVec format.mantissaBitsWithoutImplicit} :
    Sign.ofBitVec (unpackSign (packComponents format sign exponent mantissa)) = sign := by
  rw [unpackSign_packComponents]
  cases sign <;> rfl

/-- Bits are a sign, an exponent and a mantissa. -/
theorem packComponents_unpack (b : BitVec format.numBits) :
    packComponents format (Sign.ofBitVec (unpackSign b)) (unpackExponent b) (unpackMantissa b) = b := by
  delta packComponents
  rw [toBitVec_ofBitVec]
  delta unpackSign unpackExponent unpackMantissa
  have hm := format.hm
  have he := format.he
  ext i hi
  -- A bit of a part is the bit of the whole that stands as far behind the start of the part.
  have hbit : ∀ (start len : Nat) {j : Nat} (hj : j < len), start + j = i →
      (BitVec.extractLsb' start len b)[j] = b[i] := by
    rintro start len j hj rfl
    rw [BitVec.getElem_extractLsb']
    exact BitVec.getLsbD_eq_getElem hi
  simp only [BitVec.getElem_append, BitVec.getElem_cast]
  split
  · exact hbit 0 _ (by omega) (by omega)
  · split
    · exact hbit _ _ (by omega) (by omega)
    · exact hbit _ _ (by omega) (by omega)

/-- The leading bit of a full mantissa is not stored. -/
theorem toNat_one_append {n : Nat} (v : BitVec n) : (1#1 ++ v).toNat = 2 ^ n + v.toNat := by
  rw [BitVec.toNat_append, ← Nat.shiftLeft_add_eq_or_of_lt v.isLt, Nat.shiftLeft_eq]
  exact congrArg (· + v.toNat) (Nat.one_mul _)

theorem toNat_ones {n : Nat} : (-1#_ : BitVec n).toNat = 2 ^ n - 1 := by
  rw [BitVec.neg_one_eq_allOnes]
  exact BitVec.toNat_allOnes

/-- The least and the greatest exponent differ. -/
theorem zero_ne_ones : (0#_ : BitVec format.exponentBits) ≠ -1#_ := by
  intro h
  have hzero : 0 = 2 ^ format.exponentBits - 1 := (congrArg BitVec.toNat h).trans toNat_ones
  have hbits := Nat.one_lt_two_pow (Nat.pos_iff_ne_zero.1 format.he)
  omega

/-! ## Unpacking -/

variable {b : BitVec format.numBits}

/-- Bits with the greatest exponent and no mantissa hold an infinity. -/
theorem unpack_infinity (hexponent : unpackExponent b = -1#_) (hmantissa : unpackMantissa b = 0#_) :
    unpack format b = .infinity (Sign.ofBitVec (unpackSign b)) := by
  delta unpack
  dsimp only
  rw [if_pos hexponent, if_pos hmantissa]

/-- Bits with the greatest exponent and a mantissa hold NaN. -/
theorem unpack_notANumber (hexponent : unpackExponent b = -1#_) (hmantissa : unpackMantissa b ≠ 0#_) :
    unpack format b = .notANumber := by
  delta unpack
  dsimp only
  rw [if_pos hexponent, if_neg hmantissa]

/-- Bits with the least exponent and no mantissa hold a zero. -/
theorem unpack_zero (hexponent : unpackExponent b = 0#_) (hmantissa : unpackMantissa b = 0#_) :
    unpack format b = .zero (Sign.ofBitVec (unpackSign b)) := by
  delta unpack
  dsimp only
  rw [if_neg (hexponent ▸ zero_ne_ones), if_pos hexponent, dif_pos hmantissa]

/-- Bits with the least exponent hold a mantissa as it is. -/
theorem unpack_of_exponent_eq_zero (hexponent : unpackExponent b = 0#_)
    (hmantissa : unpackMantissa b ≠ 0#_) : ∃ hpos, unpack format b =
      .finite (Sign.ofBitVec (unpackSign b)) (unpackMantissa b).toNat
        (1 - (format.exponentBias + format.mantissaBitsWithoutImplicit)) hpos := by
  refine ⟨Nat.pos_of_ne_zero fun h => hmantissa (BitVec.eq_of_toNat_eq h), ?_⟩
  delta unpack
  dsimp only
  rw [if_neg (hexponent ▸ zero_ne_ones), if_pos hexponent, dif_neg hmantissa]
  refine finite_eq rfl rfl ?_
  rw [hexponent]
  show ((0 : Nat) : Int) - _ + 1 = _
  omega

/-- Bits with another exponent, but for the greatest one, hold a mantissa without its leading bit. -/
theorem unpack_of_exponent_ne_zero (hzero : unpackExponent b ≠ 0#_)
    (hones : unpackExponent b ≠ -1#_) : ∃ hpos, unpack format b =
      .finite (Sign.ofBitVec (unpackSign b))
        (2 ^ format.mantissaBitsWithoutImplicit + (unpackMantissa b).toNat)
        ((unpackExponent b).toNat - (format.exponentBias + format.mantissaBitsWithoutImplicit)) hpos := by
  refine ⟨Nat.add_pos_left (Nat.two_pow_pos _) _, ?_⟩
  delta unpack
  dsimp only
  rw [if_neg hones, if_neg hzero]
  exact finite_eq rfl (toNat_one_append _) rfl

/-- What bits hold is canonical. -/
theorem canonical_unpack (hformat : 1 < format.exponentBits) (b : BitVec format.numBits) :
    Canonical format (unpack format b) := by
  have hexponent := (unpackExponent b).isLt
  have hmantissa := (unpackMantissa b).isLt
  have hsucc : 2 ^ (format.mantissaBitsWithoutImplicit + 1) =
      2 ^ format.mantissaBitsWithoutImplicit * 2 := Nat.pow_succ ..
  have hbits : 2 ^ 1 < 2 ^ format.exponentBits := Nat.pow_lt_pow_right (by decide) hformat
  by_cases hones : unpackExponent b = -1#_
  · by_cases hnone : unpackMantissa b = 0#_
    · rw [unpack_infinity hones hnone]
      exact .infinity _
    · rw [unpack_notANumber hones hnone]
      exact .notANumber
  by_cases hzero : unpackExponent b = 0#_
  · by_cases hnone : unpackMantissa b = 0#_
    · rw [unpack_zero hzero hnone]
      exact .zero _
    · obtain ⟨hpos, hunpack⟩ := unpack_of_exponent_eq_zero hzero hnone
      rw [hunpack]
      exact .finite (by omega) (by omega) (by omega) (.inr rfl)
  · obtain ⟨hpos, hunpack⟩ := unpack_of_exponent_ne_zero hzero hones
    have hzero : (unpackExponent b).toNat ≠ 0 := fun h => hzero (BitVec.eq_of_toNat_eq h)
    have hones : (unpackExponent b).toNat ≠ 2 ^ format.exponentBits - 1 := fun h =>
      hones (BitVec.eq_of_toNat_eq (h.trans toNat_ones.symm))
    rw [hunpack]
    exact .finite (by omega) (by omega) (by omega) (.inl (by omega))

/-! ## Packing -/

theorem log2_add_one_eq_iff {mantissa : Nat} (hpos : 0 < mantissa)
    (h : mantissa < 2 ^ (format.mantissaBitsWithoutImplicit + 1)) :
    mantissa.log2 + 1 = format.mantissaBits ↔ 2 ^ format.mantissaBitsWithoutImplicit ≤ mantissa := by
  have hbits : format.mantissaBits = 1 + format.mantissaBitsWithoutImplicit := rfl
  have hlow := Nat.le_log2 (k := format.mantissaBitsWithoutImplicit) (Nat.pos_iff_ne_zero.1 hpos)
  have hhigh := Nat.le_log2 (k := format.mantissaBitsWithoutImplicit + 1) (Nat.pos_iff_ne_zero.1 hpos)
  omega

/-- The bits of a finite number. The leading bit of a full mantissa is not among them, and a shorter mantissa
has the least exponent. -/
theorem pack_finite {sign : Sign} {mantissa : Nat} {exponent : Int} {hpos : 0 < mantissa}
    (hlt : mantissa < 2 ^ (format.mantissaBitsWithoutImplicit + 1))
    (hgreatest : (exponent + (format.exponentBias + format.mantissaBitsWithoutImplicit)).toNat + 1 <
      2 ^ format.exponentBits) :
    pack format (.finite sign mantissa exponent hpos) =
      packComponents format sign
        (if 2 ^ format.mantissaBitsWithoutImplicit ≤ mantissa then
          BitVec.ofNat _ (exponent + (format.exponentBias + format.mantissaBitsWithoutImplicit)).toNat
        else 0#_)
        (BitVec.ofNat _ mantissa) := by
  delta pack
  dsimp only
  rw [Int.add_assoc, if_neg (Nat.not_le_of_gt hgreatest)]
  by_cases hnormal : 2 ^ format.mantissaBitsWithoutImplicit ≤ mantissa
  · rw [if_pos ((log2_add_one_eq_iff hpos hlt).2 hnormal), if_pos hnormal]
  · rw [if_neg (mt (log2_add_one_eq_iff hpos hlt).1 hnormal), if_neg hnormal]

/-- The bits of NaN hold it. -/
theorem unpack_packedNaN : unpack format (packedNaN format) = .notANumber := by
  have hm := format.hm
  refine unpack_notANumber unpackExponent_packComponents fun h => ?_
  -- The first bit of the mantissa is set, so there would have to be no first bit.
  have hnone : format.mantissaBitsWithoutImplicit ≤ format.mantissaBitsWithoutImplicit - 1 := by
    simpa [hm] using congrArg (·.getLsbD (format.mantissaBitsWithoutImplicit - 1))
      (unpackMantissa_packComponents.symm.trans h)
  omega

/-- What is canonical is held by its bits. -/
theorem unpack_pack {u : UnpackedFloat} (h : Canonical format u) : unpack format (pack format u) = u := by
  cases h with
  | notANumber => exact unpack_packedNaN
  | infinity sign =>
    exact (unpack_infinity unpackExponent_packComponents unpackMantissa_packComponents).trans
      (congrArg _ sign_packComponents)
  | zero sign =>
    exact (unpack_zero unpackExponent_packComponents unpackMantissa_packComponents).trans
      (congrArg _ sign_packComponents)
  | @finite sign mantissa exponent hpos hlt hleast hgreatest hform =>
    rw [pack_finite hlt hgreatest]
    generalize hb : packComponents format sign _ _ = b
    have hsign : Sign.ofBitVec (unpackSign b) = sign := hb ▸ sign_packComponents
    have hexponent : unpackExponent b = _ := hb ▸ unpackExponent_packComponents
    have hmantissa : unpackMantissa b = _ := hb ▸ unpackMantissa_packComponents
    have hsucc : 2 ^ (format.mantissaBitsWithoutImplicit + 1) =
        2 ^ format.mantissaBitsWithoutImplicit * 2 := Nat.pow_succ ..
    by_cases hnormal : 2 ^ format.mantissaBitsWithoutImplicit ≤ mantissa
    · rw [if_pos hnormal] at hexponent
      have hstored : (unpackExponent b).toNat =
          (exponent + (format.exponentBias + format.mantissaBitsWithoutImplicit)).toNat := by
        rw [hexponent, BitVec.toNat_ofNat]
        exact Nat.mod_eq_of_lt (by omega)
      have hzero : unpackExponent b ≠ 0#_ := fun h => by
        have : _ = 0 := hstored.symm.trans (congrArg BitVec.toNat h)
        omega
      have hones : unpackExponent b ≠ -1#_ := fun h => by
        have := hstored.symm.trans ((congrArg BitVec.toNat h).trans toNat_ones)
        omega
      obtain ⟨hpos', hunpack⟩ := unpack_of_exponent_ne_zero hzero hones
      rw [hunpack]
      refine finite_eq hsign ?_ (by omega)
      rw [hmantissa, BitVec.toNat_ofNat, Nat.mod_eq_sub_mod hnormal, Nat.mod_eq_of_lt (by omega)]
      omega
    · rw [if_neg hnormal] at hexponent
      have hstored : (unpackMantissa b).toNat = mantissa := by
        rw [hmantissa, BitVec.toNat_ofNat]
        exact Nat.mod_eq_of_lt (by omega)
      have hnone : unpackMantissa b ≠ 0#_ := fun h => by
        have : mantissa = 0 := hstored.symm.trans (congrArg BitVec.toNat h)
        omega
      obtain ⟨hpos', hunpack⟩ := unpack_of_exponent_eq_zero hexponent hnone
      rw [hunpack]
      exact finite_eq hsign hstored (by omega)

/-- Bits come back from what they hold. -/
theorem pack_unpack (hformat : 1 < format.exponentBits) (hvalid : format.Valid b) :
    pack format (unpack format b) = b := by
  have hcanonical := canonical_unpack hformat b
  by_cases hones : unpackExponent b = -1#_
  · by_cases hnone : unpackMantissa b = 0#_
    · conv => rhs; rw [← packComponents_unpack b, hones, hnone]
      rw [unpack_infinity hones hnone]
      rfl
    · rw [unpack_notANumber hones hnone, hvalid.eq_packedNaN hones hnone]
      rfl
  conv => rhs; rw [← packComponents_unpack b]
  by_cases hzero : unpackExponent b = 0#_
  · by_cases hnone : unpackMantissa b = 0#_
    · rw [unpack_zero hzero hnone, hzero, hnone]
      rfl
    · obtain ⟨hpos, hunpack⟩ := unpack_of_exponent_eq_zero hzero hnone
      rw [hunpack] at hcanonical ⊢
      rcases hcanonical with _ | _ | _ | ⟨hlt, -, hgreatest, -⟩
      rw [pack_finite hlt hgreatest, if_neg (Nat.not_le_of_gt (unpackMantissa b).isLt), hzero,
        BitVec.ofNat_toNat, BitVec.setWidth_eq]
  · obtain ⟨hpos, hunpack⟩ := unpack_of_exponent_ne_zero hzero hones
    rw [hunpack] at hcanonical ⊢
    rcases hcanonical with _ | _ | _ | ⟨hlt, -, hgreatest, -⟩
    rw [pack_finite hlt hgreatest, if_pos (Nat.le_add_right ..), Int.sub_add_cancel]
    congr 1
    · rw [Int.toNat_natCast, BitVec.ofNat_toNat, BitVec.setWidth_eq]
    · apply BitVec.eq_of_toNat_eq
      rw [BitVec.toNat_ofNat, Nat.add_mod_left, Nat.mod_eq_of_lt (unpackMantissa b).isLt]

end HostExpr.Floating
