-- SUMMARY: What doubles hold, and that a double is known by what it holds.
import HostExpr.Proofs.Floating.Bits

/-!
# Contents of doubles

A finite double other than zero has a mantissa of 53 bits, or one of fewer bits and the least exponent.
What is of this form, and within the greatest exponent, is the content of a double (`content_ofModel_pack`),
and of one double only (`content_injective`).
-/

namespace HostExpr.Floating

open Float.Model (Format UnpackedFloat)
open Float.Model.UnpackedFloat

/-- What a double can hold. -/
inductive IsContent : UnpackedFloat → Prop
  | notANumber : IsContent .notANumber
  | infinity (sign : Sign) : IsContent (.infinity sign)
  | zero (sign : Sign) : IsContent (.zero sign)
  | finite {sign : Sign} {mantissa : Nat} {exponent : Int} {hpos : 0 < mantissa} :
      mantissa < 2 ^ 53 → -1074 ≤ exponent → exponent ≤ 971 →
      2 ^ 52 ≤ mantissa ∨ exponent = -1074 → IsContent (.finite sign mantissa exponent hpos)

/-- Doubles have 52 stored digits, 11 bits of exponent, and a bias of 1023. -/
theorem canonical_binary64_iff {u : UnpackedFloat} : Canonical Format.binary64 u ↔ IsContent u := by
  have hbias : (Format.binary64.exponentBias : Int) + Format.binary64.mantissaBitsWithoutImplicit = 1075 :=
    rfl
  have hdigits : 2 ^ Format.binary64.mantissaBitsWithoutImplicit = 2 ^ 52 := rfl
  have hexponents : 2 ^ Format.binary64.exponentBits = 2 ^ 11 := rfl
  constructor
  · intro h
    cases h with
    | notANumber => exact .notANumber
    | infinity sign => exact .infinity sign
    | zero sign => exact .zero sign
    | finite hlt hleast hgreatest hform =>
      rw [hbias] at hleast hgreatest hform
      exact .finite hlt (by omega) (by omega) (by omega)
  · intro h
    cases h with
    | notANumber => exact .notANumber
    | infinity sign => exact .infinity sign
    | zero sign => exact .zero sign
    | finite hlt hleast hgreatest hform => exact .finite hlt (by omega) (by omega) (by omega)

/-- What a double can hold stays as it is in a double. -/
theorem content_ofModel_pack {u : UnpackedFloat} (h : IsContent u) :
    content (.ofModel (.pack u)) = u :=
  unpack_pack (canonical_binary64_iff.2 h)

/-- Doubles hold nothing else. -/
theorem isContent_content (x : Float) : IsContent (content x) :=
  canonical_binary64_iff.1 (canonical_unpack (by decide) _)

/-- A double comes back from what it holds. -/
theorem ofModel_pack_content (x : Float) : .ofModel (.pack (content x)) = x := by
  obtain ⟨⟨bits, hvalid⟩⟩ := x
  have hbits : UInt64.ofBitVec (pack Format.binary64 (unpack Format.binary64 bits.toBitVec)) = bits :=
    congrArg UInt64.ofBitVec (pack_unpack (by decide) hvalid)
  exact congrArg Float.ofModel ((Float.Model.mk.injEq ..).mpr hbits)

/-- A double is known by what it holds. -/
theorem content_injective {x y : Float} (h : content x = content y) : x = y := by
  rw [← ofModel_pack_content x, h, ofModel_pack_content]

end HostExpr.Floating
