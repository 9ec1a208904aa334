-- SUMMARY: The values of a type, and which conversions and views of values keep to it.
import HostExpr.Expr.Evaluation

/-!
# Values of types

A value inhabits a type if it has the shape that the type promises. A text may be absent, a list may
not, and types of objects, slots and `void` promise nothing.
-/

namespace HostExpr

/-- The value is one of the type. -/
def Value.Inhabits : Value → Ty → Prop
  | v, .bool => ∃ b, v = .bool b
  | v, .number kind => ∃ n, v = .number n ∧ n.kind = kind
  | v, .enum type => ∃ e, v = .enum e ∧ e.type = type
  | v, .string => v = .null ∨ ∃ s, v = .string s
  | v, .list element => ∃ items, v = .list items ∧ ∀ item ∈ items, item.Inhabits element
  | _, .object _ | _, .generic _ | _, .void => True

/-! ## Doubles brought to a type -/

theorem Value.ofDouble_inhabits {ty : Ty} (h : ty.isNumeric) (x : Float) :
    (Value.ofDouble ty x).Inhabits ty := by
  cases ty with
  | number kind => exact ⟨_, rfl, Number.kind_ofDouble kind x⟩
  | enum type => exact ⟨_, rfl, rfl⟩
  | _ => cases h

theorem Ty.isNumeric_promote {left right : Ty} (hl : left.isNumeric) :
    (left.promote right).isNumeric := by
  unfold promote
  split
  · exact hl
  · rfl

/-! ## Views of values -/

namespace Value

/-- A value of a numeric type counts as a double. -/
theorem Inhabits.toDouble_ok {v : Value} {ty : Ty} (h : v.Inhabits ty) (hty : ty.isNumeric) :
    ∃ x, v.toDouble = .ok x := by
  cases ty with
  | number kind =>
    obtain ⟨n, rfl, -⟩ := h
    exact ⟨_, rfl⟩
  | enum type =>
    obtain ⟨e, rfl, -⟩ := h
    exact ⟨_, rfl⟩
  | _ => cases hty

theorem Inhabits.toList_ok {v : Value} {element : Ty} (h : v.Inhabits (.list element)) :
    ∃ items, v.toList = .ok items ∧ ∀ item ∈ items, item.Inhabits element := by
  obtain ⟨items, rfl, hitems⟩ := h
  exact ⟨items, rfl, hitems⟩

/-- An element of a list is one of the list's items. -/
theorem mem_of_element_eq_ok {items : List Value} {index : Float} {v : Value}
    (h : Value.element items index = .ok v) : v ∈ items := by
  unfold Value.element at h
  split at h
  · rename_i hv
    cases h
    obtain ⟨i, -, hi⟩ := Option.bind_eq_some_iff.1 hv
    exact List.mem_of_getElem? hi
  · cases h

end Value

namespace Answer

/-- An answer with a value of a numeric type counts as a number. -/
theorem toNumber_ok {a : Answer} {ty : Ty} (h : a.toValue.Inhabits ty) (hty : ty.isNumeric) :
    ∃ x, a.toNumber = .ok x := by
  cases a with
  | real x type => exact ⟨x, rfl⟩
  | truth b => exact h.toDouble_ok hty
  | value v => exact h.toDouble_ok hty

/-- An answer with a truth value counts as one. -/
theorem toBool_ok {a : Answer} (h : a.toValue.Inhabits .bool) : ∃ b, a.toBool = .ok b := by
  obtain ⟨b, hb⟩ := h
  cases a with
  | real x type => cases type <;> cases hb
  | truth b => exact ⟨b, rfl⟩
  | value v =>
    have hv : v = .bool b := hb
    rw [hv]
    exact ⟨b, rfl⟩

end Answer

/-! ## Conversions -/

theorem Conversion.kind_number {text : String} {kind : NumberKind} {n : Number}
    (h : Conversion.number text kind = .ok n) : n.kind = kind := by
  unfold Conversion.number at h
  dsimp only at h
  split at h
  · cases h
    exact Number.kind_cast _ _
  · split at h
    · cases h
      exact Number.kind_ofDouble _ _
    · cases h

theorem Conversion.type_enumValue {text : String} {type : EnumType} {e : EnumValue}
    (h : Conversion.enumValue text type = .ok e) : e.type = type := by
  unfold Conversion.enumValue at h
  dsimp only at h
  split at h
  · cases h
    rfl
  · cases h

/-- A conversion ends in a value of its target, unless the target is a list type: the items of a list
stay as they are, and an absent value is taken for a list. -/
theorem convert_inhabits {v w : Value} {target : Ty} (h : convert v target = .ok w)
    (hlist : ∀ element, target ≠ .list element) : w.Inhabits target := by
  cases target with
  | object | generic | void => trivial
  | list element => exact absurd rfl (hlist element)
  | bool =>
    cases v with
    | bool b | number n =>
      cases h
      exact ⟨_, rfl⟩
    | string s =>
      simp only [convert] at h
      cases hb : Conversion.bool s with
      | ok b =>
        rw [hb] at h
        cases h
        exact ⟨b, rfl⟩
      | error e =>
        rw [hb] at h
        cases h
    | _ => cases h
  | string =>
    cases v with
    | null =>
      cases h
      exact .inl rfl
    | bool | number | string | enum =>
      cases h
      exact .inr ⟨_, rfl⟩
    | _ => cases h
  | number kind =>
    cases v with
    | bool | number | enum =>
      cases h
      exact ⟨_, rfl, Number.kind_cast _ _⟩
    | string s =>
      simp only [convert] at h
      cases hn : Conversion.number s kind with
      | ok n =>
        rw [hn] at h
        cases h
        exact ⟨n, rfl, Conversion.kind_number hn⟩
      | error e =>
        rw [hn] at h
        cases h
    | _ => cases h
  | enum type =>
    cases v with
    | number =>
      cases h
      exact ⟨_, rfl, rfl⟩
    | enum e =>
      simp only [convert] at h
      split at h
      · cases h
        exact ⟨e, rfl, ‹_›⟩
      · cases h
        exact ⟨_, rfl, rfl⟩
    | string s =>
      simp only [convert] at h
      cases he : Conversion.enumValue s type with
      | ok e =>
        rw [he] at h
        cases h
        exact ⟨e, rfl, Conversion.type_enumValue he⟩
      | error e =>
        rw [he] at h
        cases h
    | _ => cases h

end HostExpr
