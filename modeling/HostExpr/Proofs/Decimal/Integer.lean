-- SUMMARY: An integer is read back from its decimal text.
import HostExpr.Proofs.Decimal.Numeral

/-!
# Decimal integers read back

The digits of a number stand for it, and so an integer is read back from its text: as an integer, as a
signed word if it fits into one, and its magnitude as the nearest double.
-/

namespace HostExpr.Decimal

variable {n : Nat}

theorem all_isDigit_digits (n : Nat) : (digits n).all isDigit :=
  List.all_eq_true.2 fun _ => isDigit_digits

theorem ofDigits_digits (n : Nat) : ofDigits (digits n) = n := by
  have h : ofDigits (digits n) = Nat.ofDigitChars 10 (Nat.toDigits 10 n) 0 :=
    Nat.ofDigitChars_eq_foldl.symm
  rw [h, Nat.ofDigitChars_ten_toDigits]

theorem natural?_digits (n : Nat) : natural? (digits n) = some n := by
  unfold natural?
  rw [if_pos ⟨Nat.toDigits_ne_nil, all_isDigit_digits n⟩, ofDigits_digits]

/-- The digits of a number begin with one. -/
theorem exists_cons_digits (n : Nat) : ∃ c cs, digits n = c :: cs ∧ isDigit c := by
  obtain ⟨c, cs, h⟩ : ∃ c cs, digits n = c :: cs := List.exists_cons_of_ne_nil Nat.toDigits_ne_nil
  have hc : c ∈ digits n := by
    rw [h]
    exact List.mem_cons_self ..
  exact ⟨c, cs, h, isDigit_digits hc⟩

theorem integer?_integerChars (n : Int) : integer? (integerChars n) = some n := by
  obtain ⟨c, cs, hdigits, hc⟩ := exists_cons_digits n.natAbs
  unfold integer? integerChars signed
  by_cases hneg : n < 0
  · simp only [hneg, decide_true, if_true, splitSign, natural?_digits]
    refine congrArg some ?_
    show -(n.natAbs : Int) = n
    omega
  · simp only [hneg, decide_false, Bool.false_eq_true, if_false]
    rw [hdigits, splitSign_of_isDigit hc]
    rw [← hdigits]
    simp only [natural?_digits]
    refine congrArg some ?_
    show (n.natAbs : Int) = n
    omega

/-- An integer is read as a signed word of 64 bits if it fits into one. -/
theorem int64?_integerChars (n : Int) : int64? (integerChars n) =
    if Int64.minValue.toInt ≤ n ∧ n ≤ Int64.maxValue.toInt then some (.ofInt n) else none := by
  unfold int64?
  rw [integer?_integerChars]
  rfl

/-- Digits are read as a double without an exponent. -/
theorem double?_digits (n : Nat) : double? (digits n) = some (nearest n 0) := by
  obtain ⟨c, cs, hdigits, hc⟩ := exists_cons_digits n
  rw [hdigits, double?_of_isDigit hc, ← hdigits]
  have htake : (digits n).takeWhile isDigit = digits n := by
    have h : (digits n ++ []).takeWhile isDigit = _ :=
      List.takeWhile_append_of_pos fun _ => isDigit_digits
    rwa [List.append_nil, List.takeWhile_nil, List.append_nil] at h
  have hdrop : (digits n).dropWhile isDigit = [] := by
    have h : (digits n ++ []).dropWhile isDigit = _ :=
      List.dropWhile_append_of_pos fun _ => isDigit_digits
    rwa [List.append_nil, List.dropWhile_nil] at h
  unfold scientific?
  rw [htake, hdrop]
  simp only
  rw [if_neg (fun h => Nat.toDigits_ne_nil h.1), List.append_nil, ofDigits_digits]
  rfl

end HostExpr.Decimal
