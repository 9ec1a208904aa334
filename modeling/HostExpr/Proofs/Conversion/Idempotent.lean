-- SUMMARY: What a conversion ends in converts to the same type as it is.
import HostExpr.Proofs.Conversion.Fits
import HostExpr.Proofs.Floating.Singles
import HostExpr.Proofs.Number.Casts

/-!
# Converting again

A conversion ends in a value of its target, and a value of the target is taken as it is: the target asks a
number for a cast to the kind that it has already. Casting goes through a double for a single, which comes
back from there, NaN included.
-/

namespace HostExpr

/-- A cast to the number's own kind changes nothing. -/
theorem Number.cast_self (n : Number) : n.cast n.kind = n := by
  cases n with
  | integer kind word => exact (integer_eq_ofInt_iff.2 (Int.ModEq.refl _)).symm
  | float x => exact congrArg float (Floating.narrow_widen x)
  | double x => rfl

/-- A value of a type converts to that type as it is, if it is one of a type that promises something. -/
theorem Value.Inhabits.convert_eq {v : Value} {ty : Ty} (h : v.Inhabits ty) (hvoid : ty ≠ .void) :
    convert v ty = .ok v := by
  cases ty with
  | object | generic =>
    cases v <;> rfl
  | void => exact absurd rfl hvoid
  | bool =>
    obtain ⟨b, rfl⟩ := h
    rfl
  | string =>
    rcases h with rfl | ⟨s, rfl⟩ <;> rfl
  | number kind =>
    obtain ⟨n, rfl, rfl⟩ := h
    show Except.ok (Value.number (n.cast n.kind)) = _
    rw [n.cast_self]
  | enum type =>
    obtain ⟨e, rfl, he⟩ := h
    exact if_pos he
  | list element =>
    obtain ⟨items, rfl, -⟩ := h
    rfl

/-- What a conversion ends in converts to the target once more, as it is. -/
theorem convert_idempotent {v w : Value} {target : Ty} (h : convert v target = .ok w) :
    convert w target = .ok w := by
  by_cases hvoid : target = .void
  · subst hvoid
    exact absurd h convert_void_ne_ok
  by_cases hlist : ∃ element, target = .list element
  · obtain ⟨element, rfl⟩ := hlist
    obtain ⟨rfl, -⟩ := convert_list_eq_ok_iff.1 h
    exact h
  · exact (convert_inhabits h fun element he => hlist ⟨element, he⟩).convert_eq hvoid

/-- The double nearest to a tenth is not that of a single, so its conversion to a single rounds; converting
the result does not. -/
theorem convert_idempotent_tenth :
    convert (.number (.double 0.1)) (.number .float) = .ok (.number (.float (Floating.narrow 0.1))) ∧
      Floating.widen (Floating.narrow 0.1) ≠ 0.1 ∧
      convert (.number (.float (Floating.narrow 0.1))) (.number .float) =
        .ok (.number (.float (Floating.narrow 0.1))) := by
  have h : convert (.number (.double 0.1)) (.number .float) =
      .ok (.number (.float (Floating.narrow 0.1))) := rfl
  exact ⟨h, by decide, convert_idempotent h⟩

end HostExpr
