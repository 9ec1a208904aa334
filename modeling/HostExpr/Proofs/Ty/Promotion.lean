-- SUMMARY: The type of an arithmetic operation on many operands does not depend on their order and grouping.
import Mathlib.Data.List.Perm.Basic
import HostExpr.Expr

/-!
# Promotion over many operands

Different types are promoted to the kind at the lesser of their positions on the ladder, where a type that
is not on the ladder comes after all that are, as `int` does (`promote_of_ne`). So promotion is a join, and
the type of a combination of operands is the join of their types.
-/

namespace HostExpr

namespace Ty

/-! ## Positions on the ladder -/

/-- The position of the type on the ladder, or the length of the ladder. -/
def position (ty : Ty) : Nat := ladder.findIdx fun kind => ty.numberKind? = some kind

/-- The type that wins at a position on the ladder; behind it, `int`. -/
def winner (n : Nat) : Ty := .number (ladder[n]?.getD .int)

variable {a b c : Ty}

theorem position_le (ty : Ty) : ty.position ≤ ladder.length := List.findIdx_le_length

theorem position_winner {n : Nat} (h : n ≤ ladder.length) : (winner n).position = n := by
  revert n
  decide

theorem promote_self (a : Ty) : a.promote a = a := if_pos rfl

theorem promote_of_ne (h : a ≠ b) : a.promote b = winner (min a.position b.position) := by
  unfold promote winner position
  rw [if_neg h, List.min_findIdx_findIdx, List.find?_eq_getElem?_findIdx]

theorem promote_winner {n : Nat} (h : n ≤ ladder.length) :
    (winner n).promote a = winner (min n a.position) := by
  by_cases ha : winner n = a
  · subst ha
    rw [promote_self, position_winner h, Nat.min_self]
  · rw [promote_of_ne ha, position_winner h]

/-! ## Laws -/

theorem promote_comm (a b : Ty) : a.promote b = b.promote a := by
  by_cases h : a = b
  · rw [h]
  · rw [promote_of_ne h, promote_of_ne (Ne.symm h), Nat.min_comm]

theorem promote_promote_left (a b : Ty) : a.promote (a.promote b) = a.promote b := by
  by_cases h : a = b
  · rw [h, promote_self, promote_self]
  · have hle := Nat.le_trans (Nat.min_le_left a.position b.position) (position_le a)
    rw [promote_of_ne h, promote_comm, promote_winner hle, Nat.min_right_comm, Nat.min_self]

theorem promote_assoc (a b c : Ty) : (a.promote b).promote c = a.promote (b.promote c) := by
  by_cases hab : a = b
  · rw [hab, promote_self, promote_promote_left]
  by_cases hbc : b = c
  · rw [hbc, promote_self, promote_comm, promote_comm a c, promote_promote_left]
  have hleft := Nat.le_trans (Nat.min_le_left a.position b.position) (position_le a)
  have hright := Nat.le_trans (Nat.min_le_left b.position c.position) (position_le b)
  calc (a.promote b).promote c
      = winner (min (min a.position b.position) c.position) := by
        rw [promote_of_ne hab, promote_winner hleft]
    _ = winner (min (min b.position c.position) a.position) := by
        rw [Nat.min_comm (min _ _) a.position, Nat.min_assoc]
    _ = a.promote (b.promote c) := by
        rw [promote_of_ne hbc, promote_comm a, promote_winner hright]

end Ty

/-! ## Combinations -/

/-- Operands combined by binary operators, in some order and grouping. -/
inductive Combination (σ : Type) where
  | operand (e : Expr σ)
  | operation (op : ArithmeticOp) (left right : Combination σ)

namespace Combination

variable {σ : Type}

/-- The tree of operations. -/
def toExpr : Combination σ → Expr σ
  | operand e => e
  | operation op left right => .binary op left.toExpr right.toExpr

/-- The operands from left to right. -/
def operands : Combination σ → List (Expr σ)
  | operand e => [e]
  | operation _ left right => left.operands ++ right.operands

/-- Promoting a type to that of a combination is promoting it to the types of the operands one after the
other. -/
theorem promote_type (t : Combination σ) (ty : Ty) :
    ty.promote t.toExpr.type = (t.operands.map Expr.type).foldl Ty.promote ty := by
  induction t generalizing ty with
  | operand e => rfl
  | operation op left right ihleft ihright =>
    calc ty.promote (left.toExpr.type.promote right.toExpr.type)
        = (ty.promote left.toExpr.type).promote right.toExpr.type := (Ty.promote_assoc ..).symm
      _ = _ := by
        rw [ihleft, ihright, operands, List.map_append, List.foldl_append]

/-- Combinations of operands that have the same types, in whatever order, have the same type. -/
theorem type_eq_of_perm {t t' : Combination σ}
    (h : (t.operands.map Expr.type).Perm (t'.operands.map Expr.type)) :
    t.toExpr.type = t'.toExpr.type := by
  have : RightCommutative Ty.promote := ⟨fun a b c => by
    rw [Ty.promote_assoc, Ty.promote_comm b, Ty.promote_assoc]⟩
  -- Any type is promoted alike to both, their own ones too.
  have hpromote : ∀ ty : Ty, ty.promote t.toExpr.type = ty.promote t'.toExpr.type := fun ty => by
    rw [promote_type, promote_type, h.foldl_eq]
  calc t.toExpr.type
      = t.toExpr.type.promote t'.toExpr.type := by rw [← hpromote, Ty.promote_self]
    _ = t'.toExpr.type.promote t.toExpr.type := Ty.promote_comm ..
    _ = t'.toExpr.type := by rw [hpromote, Ty.promote_self]

end Combination

/-- Promotion is commutative, associative and idempotent, so the type that operations give to a combination
of operands is the same for every order and grouping of them, and for any binary operators. -/
theorem promotion_unordered {σ : Type} :
    (∀ a b : Ty, a.promote b = b.promote a) ∧
    (∀ a b c : Ty, (a.promote b).promote c = a.promote (b.promote c)) ∧
    (∀ a : Ty, a.promote a = a) ∧
    ∀ t t' : Combination σ, (t.operands.map Expr.type).Perm (t'.operands.map Expr.type) →
      t.toExpr.type = t'.toExpr.type :=
  ⟨Ty.promote_comm, Ty.promote_assoc, Ty.promote_self, fun _ _ => Combination.type_eq_of_perm⟩

/-- For a byte, a color and a long, the product of the first two plus the third is a `long`, although the
product is an `int`. So is the third minus the union of the other two. -/
theorem promotion_unordered_long :
    let b : Combination Unit := .operand (.var "b" (.number (.integer .byte)))
    let c : Combination Unit := .operand (.var "c" (.enum ⟨"Color", [("Red", 1)]⟩))
    let n : Combination Unit := .operand (.var "n" (.number (.integer .long)))
    (Combination.operation .mul b c).toExpr.type = .int ∧
      (Combination.operation .add (.operation .mul b c) n).toExpr.type = .number (.integer .long) ∧
      (Combination.operation .sub n (.operation .bitOr b c)).toExpr.type = .number (.integer .long) := by
  intro b c n
  have hsum : (Combination.operation .add (.operation .mul b c) n).toExpr.type =
      .number (.integer .long) := rfl
  refine ⟨rfl, hsum, (promotion_unordered.2.2.2 _ _ ?_).trans hsum⟩
  show ([n.toExpr.type] ++ [b.toExpr.type, c.toExpr.type]).Perm ([b.toExpr.type, c.toExpr.type] ++ _)
  exact List.perm_append_comm

end HostExpr
