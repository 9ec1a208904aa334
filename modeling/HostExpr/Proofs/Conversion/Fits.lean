-- SUMMARY: Which conversions end in a value of their target: all of them, but for the items of lists.
import HostExpr.Proofs.Inhabits

/-!
# What a conversion promises

A value fits a type if the type may promise it: like `Value.Inhabits`, but a list may be absent, also
where it is the item of another list, and nothing is a value of `void`.

Conversion tells list types apart by nothing but being list types. So its result fits the target
unless the target is a list type and the value was a list of something else.
-/

namespace HostExpr

/-! ## Values that fit -/

/-- The value is one that the type promises. -/
def Value.Fits : Value → Ty → Prop
  | v, .bool => ∃ b, v = .bool b
  | v, .number kind => ∃ n, v = .number n ∧ n.kind = kind
  | v, .enum type => ∃ e, v = .enum e ∧ e.type = type
  | v, .string => v = .null ∨ ∃ s, v = .string s
  | v, .list element => v = .null ∨ ∃ items, v = .list items ∧ ∀ item ∈ items, item.Fits element
  | _, .object _ | _, .generic _ => True
  | _, .void => False

/-- Apart from lists and `void`, the values that fit a type are those that inhabit it. -/
theorem Value.Inhabits.fits {v : Value} {ty : Ty} (h : v.Inhabits ty)
    (hlist : ∀ element, ty ≠ .list element) (hvoid : ty ≠ .void) : v.Fits ty := by
  cases ty with
  | void => exact absurd rfl hvoid
  | list element => exact absurd rfl (hlist element)
  | object | generic => trivial
  | bool | number | enum | string => exact h

/-! ## Conversion to a list type, and to none -/

/-- What converts to a list type is an absent value or a list, whatever its items are, and it stays as
it is. -/
theorem convert_list_eq_ok_iff {v w : Value} {element : Ty} :
    convert v (.list element) = .ok w ↔ w = v ∧ (v = .null ∨ ∃ items, v = .list items) := by
  cases v with
  | null =>
    constructor
    · intro h
      cases h
      exact ⟨rfl, .inl rfl⟩
    · rintro ⟨rfl, -⟩
      rfl
  | list items =>
    constructor
    · intro h
      cases h
      exact ⟨rfl, .inr ⟨items, rfl⟩⟩
    · rintro ⟨rfl, -⟩
      rfl
  | bool | number | string | enum | object =>
    constructor
    · intro h
      cases h
    · rintro ⟨-, h | ⟨items, h⟩⟩ <;> cases h

theorem convert_void_ne_ok {v w : Value} : convert v .void ≠ .ok w := by
  intro h
  cases v <;> cases h

/-- A result of a conversion fits the target, but for the items of a list: these are not looked at,
so they fit the element type only if they did before. -/
theorem convert_fits_iff {v w : Value} {target : Ty} (h : convert v target = .ok w) :
    w.Fits target ↔ ∀ element items, target = .list element → v = .list items →
      ∀ item ∈ items, item.Fits element := by
  by_cases hvoid : target = .void
  · subst hvoid
    exact absurd h convert_void_ne_ok
  by_cases hlist : ∃ element, target = .list element
  · obtain ⟨element, rfl⟩ := hlist
    obtain ⟨rfl, hw⟩ := convert_list_eq_ok_iff.1 h
    constructor
    · rintro (hnull | ⟨items, hitems, hfits⟩) element' items' ⟨⟩ hw'
      · rw [hnull] at hw'
        cases hw'
      · rw [hitems] at hw'
        cases hw'
        exact hfits
    · intro hfits
      rcases hw with hnull | ⟨items, hitems⟩
      · exact .inl hnull
      · exact .inr ⟨items, hitems, hfits element items rfl hitems⟩
  · have hlist' : ∀ element, target ≠ .list element := fun element he => hlist ⟨element, he⟩
    refine ⟨fun _ element _ he => absurd he (hlist' element), fun _ => ?_⟩
    exact (convert_inhabits h hlist').fits hlist' hvoid

/-- A list of a list of an `int` and of an absent list is one of lists of `int`. -/
theorem convert_fits_lists :
    convert (.list [.list [.number (.ofInt .int 1)], .null]) (.list (.list .int))
        = .ok (.list [.list [.number (.ofInt .int 1)], .null]) ∧
      (Value.list [.list [.number (.ofInt .int 1)], .null]).Fits (.list (.list .int)) := by
  have h : convert (.list [.list [.number (.ofInt .int 1)], .null]) (.list (.list .int))
      = .ok (.list [.list [.number (.ofInt .int 1)], .null]) := rfl
  refine ⟨h, (convert_fits_iff h).2 ?_⟩
  rintro element items ⟨⟩ ⟨⟩ item hitem
  rcases List.mem_cons.1 hitem with rfl | hitem
  · refine .inr ⟨_, rfl, fun item hitem => ?_⟩
    exact List.mem_singleton.1 hitem ▸ ⟨_, rfl, rfl⟩
  · exact .inl (List.mem_singleton.1 hitem)

/-- A list of an `int` counts as a list of texts, as it is. -/
theorem not_convert_fits :
    convert (.list [.number (.ofInt .int 1)]) (.list .string)
        = .ok (.list [.number (.ofInt .int 1)]) ∧
      ¬ (Value.list [.number (.ofInt .int 1)]).Fits (.list .string) := by
  refine ⟨rfl, ?_⟩
  rintro (h | ⟨items, hitems, hfits⟩)
  · cases h
  · cases hitems
    rcases hfits _ (List.mem_singleton_self _) with h | ⟨s, h⟩ <;> cases h

end HostExpr
