-- SUMMARY: Casts between kinds of integer keep an integer modulo the number of words of the target.
import Mathlib.Data.Int.ModEq
import HostExpr.Number

/-!
# Casts of integers

A kind of integer has one word for each residue modulo the number of its words, whether it reads a word
with a sign or without one (`eq_ofInt_iff`). A cast takes an integer to the word of its residue. Residues
modulo a power of two determine those modulo a smaller one, so a cast on the way to a kind that is not
wider changes nothing.
-/

namespace HostExpr

namespace IntegerKind

variable {k : IntegerKind}

/-- The number of words of the kind. -/
def words (k : IntegerKind) : Nat := Nat.pow 2 k.width

theorem words_dvd_words {k k' : IntegerKind} (h : k.width ≤ k'.width) : k.words ∣ k'.words :=
  Nat.pow_dvd_pow 2 h

/-! ## Words and residues -/

/-- A word is that of the integer that it stands for. -/
theorem ofInt_toInt (word : BitVec k.width) : BitVec.ofInt k.width (k.toInt word) = word := by
  unfold toInt
  split
  · exact BitVec.ofInt_toInt
  · rw [BitVec.ofInt_natCast, BitVec.ofNat_toNat, BitVec.setWidth_eq]

/-- The word of an integer stands for an integer of the same residue. -/
theorem toInt_ofInt_modEq (k : IntegerKind) (n : Int) :
    k.toInt (BitVec.ofInt k.width n) ≡ n [ZMOD k.words] := by
  unfold toInt
  split
  · rw [BitVec.toInt_ofInt]
    exact Int.bmod_emod
  · have hpos : (k.words : Int) ≠ 0 := Int.natCast_ne_zero.2 (Nat.two_pow_pos k.width).ne'
    rw [BitVec.toNat_ofInt]
    show ((n % (k.words : Int)).toNat : Int) % k.words = n % k.words
    rw [Int.toNat_of_nonneg (Int.emod_nonneg n hpos), Int.emod_emod]

/-- Integers of the same residue have the same word. -/
theorem ofInt_congr {m n : Int} (h : m ≡ n [ZMOD k.words]) :
    BitVec.ofInt k.width m = BitVec.ofInt k.width n := by
  have hresidue : m % (2 ^ k.width : Nat) = n % (2 ^ k.width : Nat) := h
  apply BitVec.eq_of_toNat_eq
  rw [BitVec.toNat_ofInt, BitVec.toNat_ofInt, hresidue]

/-- A word is that of an integer if it stands for an integer of the same residue. -/
theorem eq_ofInt_iff {word : BitVec k.width} {n : Int} :
    word = BitVec.ofInt k.width n ↔ k.toInt word ≡ n [ZMOD k.words] := by
  constructor
  · rintro rfl
    exact toInt_ofInt_modEq k n
  · intro h
    rw [← ofInt_toInt word]
    exact ofInt_congr h

end IntegerKind

namespace Number

variable {k target : IntegerKind} {word : BitVec k.width}

/-! ## Casts -/

theorem cast_integer : (integer k word).cast (.integer target) = ofInt target (k.toInt word) := rfl

/-- A number of the kind is known by its residue. -/
theorem integer_eq_ofInt_iff {n : Int} : integer k word = ofInt k n ↔ k.toInt word ≡ n [ZMOD k.words] := by
  rw [← IntegerKind.eq_ofInt_iff]
  unfold ofInt
  constructor
  · rintro ⟨⟩
    rfl
  · rintro rfl
    rfl

/-- A cast of the word of an integer to a kind that is not wider is the word of that integer. -/
theorem cast_ofInt (n : Int) (h : target.width ≤ k.width) :
    (ofInt k n).cast (.integer target) = ofInt target n := by
  refine congrArg (integer target) (IntegerKind.ofInt_congr ?_)
  exact (IntegerKind.toInt_ofInt_modEq k n).of_dvd (Int.natCast_dvd_natCast.2 (IntegerKind.words_dvd_words h))

/-- The cast of an integer to a kind of integer is the one number of that kind with the same residue modulo
the number of words of the kind. A cast on the way to a kind that is not wider than that of the stop
changes nothing; in particular, an integer comes back from every kind that is as wide as its own. -/
theorem cast_residue (k target narrow : IntegerKind) (word : BitVec k.width) :
    (∀ n : Number, n = (integer k word).cast (.integer target) ↔
      ∃ v, n = integer target v ∧ target.toInt v ≡ k.toInt word [ZMOD target.words]) ∧
    (narrow.width ≤ target.width →
      ((integer k word).cast (.integer target)).cast (.integer narrow) =
        (integer k word).cast (.integer narrow)) ∧
    (k.width ≤ target.width →
      ((integer k word).cast (.integer target)).cast (.integer k) = integer k word) := by
  refine ⟨fun n => ?_, fun h => ?_, fun h => ?_⟩
  · rw [cast_integer]
    constructor
    · rintro rfl
      exact ⟨_, rfl, IntegerKind.toInt_ofInt_modEq target _⟩
    · rintro ⟨v, rfl, hv⟩
      exact integer_eq_ofInt_iff.2 hv
  · rw [cast_integer, cast_ofInt _ h, cast_integer]
  · rw [cast_integer, cast_ofInt _ h]
    exact (integer_eq_ofInt_iff.2 (Int.ModEq.refl _)).symm

/-- The integer 300 is 44 as a byte, also by way of a signed byte. -/
theorem cast_residue_byte :
    (ofInt .int 300).cast (.integer .byte) = ofInt .byte 44 ∧
      ((ofInt .int 300).cast (.integer .sbyte)).cast (.integer .byte) = ofInt .byte 44 := by
  obtain ⟨-, hnarrow, -⟩ := cast_residue .int .sbyte .byte (.ofInt 32 300)
  exact ⟨by decide, (hnarrow (by decide)).trans (by decide)⟩

end Number

end HostExpr
