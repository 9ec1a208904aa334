-- SUMMARY: A single comes back from the double of its value.
import HostExpr.Proofs.Floating.Rounding

/-!
# Singles as doubles

A single has a mantissa of 24 bits and an exponent that a double can have as well. The double of its value
has the mantissa of the single with zeros behind it, so nothing is rounded when the single is widened to the
double, and nothing when the double is narrowed again.
-/

namespace HostExpr.Floating

open Float.Model (Format UnpackedFloat totalExponent)
open Float.Model.UnpackedFloat

/-- A single comes back from what it holds. -/
theorem ofModel_pack_content32 (x : Float32) : .ofModel (.pack (content32 x)) = x := by
  obtain ⟨⟨bits, hvalid⟩⟩ := x
  have hbits : UInt32.ofBitVec (pack Format.binary32 (unpack Format.binary32 bits.toBitVec)) = bits :=
    congrArg UInt32.ofBitVec (pack_unpack (by decide) hvalid)
  exact congrArg Float32.ofModel ((Float32.Model.mk.injEq ..).mpr hbits)

variable {mantissa : Nat} {exponent : Int}

/-- A finite single other than zero has a mantissa of 24 bits, or one of fewer bits and the least exponent. -/
theorem bounds_of_content32 {x : Float32} {sign : Sign} {hpos : 0 < mantissa}
    (h : content32 x = .finite sign mantissa exponent hpos) :
    mantissa < 2 ^ 24 ∧ -149 ≤ exponent ∧ exponent ≤ 104 ∧ (2 ^ 23 ≤ mantissa ∨ exponent = -149) := by
  have hcanonical : Canonical Format.binary32 (content32 x) := canonical_unpack (by decide) _
  have hbias : (Format.binary32.exponentBias : Int) + Format.binary32.mantissaBitsWithoutImplicit = 150 :=
    rfl
  have hdigits : 2 ^ Format.binary32.mantissaBitsWithoutImplicit = 2 ^ 23 := rfl
  have hexponents : 2 ^ Format.binary32.exponentBits = 2 ^ 8 := rfl
  rw [h] at hcanonical
  cases hcanonical with
  | finite hlt hleast hgreatest hform =>
    rw [hbias] at hleast hgreatest hform
    exact ⟨hlt, by omega, by omega, by omega⟩

/-- The exponent of a single is the one that its magnitude has as a single. -/
theorem targetExponent_single (hpos : 0 < mantissa) (hlt : mantissa < 2 ^ 24) (hleast : -149 ≤ exponent)
    (hform : 2 ^ 23 ≤ mantissa ∨ exponent = -149) :
    Format.binary32.targetExponent (totalExponent mantissa exponent) = exponent := by
  have hbits : ((Format.binary32.mantissaBits : Nat) : Int) = 24 := rfl
  have hmin : Format.binary32.minExponent = -149 := rfl
  have hlow := Nat.le_log2 (k := 23) (Nat.pos_iff_ne_zero.1 hpos)
  have hhigh := Nat.le_log2 (k := 24) (Nat.pos_iff_ne_zero.1 hpos)
  delta Format.targetExponent totalExponent
  rw [hbits, hmin]
  omega

/-- As a double, the magnitude has an exponent that is lower by the digits that its mantissa has less than
that of a double. -/
theorem targetExponent_widen (hpos : 0 < mantissa) (hlt : mantissa < 2 ^ 24) (hleast : -149 ≤ exponent) :
    Format.binary64.targetExponent (totalExponent mantissa exponent) =
      exponent - (52 - mantissa.log2 : Nat) := by
  have hbits : ((Format.binary64.mantissaBits : Nat) : Int) = 53 := rfl
  have hmin : Format.binary64.minExponent = -1074 := rfl
  have hlog := (Nat.log2_lt (Nat.pos_iff_ne_zero.1 hpos)).2 hlt
  delta Format.targetExponent totalExponent
  rw [hbits, hmin]
  omega

/-- The zeros behind the mantissa of a single make it one of 53 bits. -/
theorem widened_bounds (hpos : 0 < mantissa) (hlt : mantissa < 2 ^ 24) :
    2 ^ 52 ≤ mantissa * 2 ^ (52 - mantissa.log2) ∧ mantissa * 2 ^ (52 - mantissa.log2) < 2 ^ 53 := by
  have hne := Nat.pos_iff_ne_zero.1 hpos
  have hlog := (Nat.log2_lt hne).2 hlt
  have hwide : (mantissa * 2 ^ (52 - mantissa.log2)).log2 = 52 := by
    rw [log2_mul_two_pow hne]
    omega
  have hne' := Nat.pos_iff_ne_zero.1 (Nat.mul_pos hpos (Nat.two_pow_pos (52 - mantissa.log2)))
  exact (Nat.log2_eq_iff hne').1 hwide

/-- What the double of a single's value holds, for a finite single other than zero. -/
theorem content_widen {x : Float32} {sign : Sign} {hpos : 0 < mantissa}
    (h : content32 x = .finite sign mantissa exponent hpos) : ∃ hpos, content (widen x) =
      .finite sign (mantissa * 2 ^ (52 - mantissa.log2)) (exponent - (52 - mantissa.log2 : Nat)) hpos := by
  obtain ⟨hlt, hleast, hgreatest, -⟩ := bounds_of_content32 h
  obtain ⟨hlow, hhigh⟩ := widened_bounds hpos hlt
  obtain ⟨hpos', hround⟩ := round_of_targetExponent_eq sign hpos (targetExponent_widen hpos hlt hleast)
  refine ⟨hpos', ?_⟩
  unfold widen
  rw [h]
  dsimp only [nearest]
  rw [hround]
  exact content_ofModel_pack (.finite hhigh (by omega) (by omega) (.inl hlow))

/-- A single comes back from the double of its value. -/
theorem narrow_widen (x : Float32) : narrow (widen x) = x := by
  have hback := ofModel_pack_content32 x
  unfold narrow
  cases hx : content32 x with
  | finite sign mantissa exponent hpos =>
    rw [hx] at hback
    obtain ⟨hlt, hleast, -, hform⟩ := bounds_of_content32 hx
    obtain ⟨hpos', hwide⟩ := content_widen hx
    rw [hwide]
    dsimp only [nearest32]
    rw [round_mul_two_pow sign hpos (targetExponent_single hpos hlt hleast hform)]
    exact hback
  | notANumber =>
    rw [hx] at hback
    unfold widen
    rw [hx, content_ofModel_pack .notANumber]
    exact hback
  | infinity sign =>
    rw [hx] at hback
    unfold widen
    rw [hx, content_ofModel_pack (.infinity sign)]
    exact hback
  | zero sign =>
    rw [hx] at hback
    unfold widen
    rw [hx, content_ofModel_pack (.zero sign)]
    exact hback

end HostExpr.Floating
