-- SUMMARY: The members and methods that the host declares on types.
import HostExpr.Host.Member
import HostExpr.Host.Method

/-!
# Catalogs of types

A catalog keeps, for every type that something is declared on, its members and methods in the order
of declaration; that order decides which one a name means. Besides what is declared, a list has
`Count` and a text has `Length`.

This is the one sort of catalog here: what a type has is what was declared on it, and a catalog has no
conversions of its own.
-/

namespace HostExpr

/-- What is declared on one type. -/
structure TypeDef (σ : Type) where
  members : List (Member σ)
  methods : List (Method σ)

/-- Declarations by type. -/
structure Catalog (σ : Type) where
  types : List (Ty × TypeDef σ)

namespace Catalog

variable {σ : Type}

/-- The catalog without declarations. -/
def empty : Catalog σ := ⟨[]⟩

instance : EmptyCollection (Catalog σ) := ⟨empty⟩

/-! ## Declaring -/

/-- What is declared on a type, if it was ever defined. -/
def get? (c : Catalog σ) (ty : Ty) : Option (TypeDef σ) :=
  (c.types.find? fun (key, _) => key = ty).map (·.2)

/-- What is declared on a type: nothing at first. -/
def definition (c : Catalog σ) (ty : Ty) : TypeDef σ := (c.get? ty).getD ⟨[], []⟩

/-- The catalog in which a type has the given declarations. -/
def set (c : Catalog σ) (ty : Ty) (d : TypeDef σ) : Catalog σ :=
  ⟨(ty, d) :: c.types.filter fun (key, _) => key ≠ ty⟩

/-- Makes a type a defined one. -/
def define (c : Catalog σ) (ty : Ty) : Catalog σ := c.set ty (c.definition ty)

/-- Declares a member. -/
def addMember (c : Catalog σ) (ty : Ty) (m : Member σ) : Catalog σ :=
  let d := c.definition ty
  c.set ty { d with members := d.members ++ [m] }

/-- Declares a method. -/
def addMethod (c : Catalog σ) (ty : Ty) (m : Method σ) : Catalog σ :=
  let d := c.definition ty
  c.set ty { d with methods := d.methods ++ [m] }

@[simp] theorem get?_set_self (c : Catalog σ) (ty : Ty) (d : TypeDef σ) :
    (c.set ty d).get? ty = some d := by
  simp [get?, set]

theorem get?_set_of_ne (c : Catalog σ) {ty other : Ty} (d : TypeDef σ) (h : other ≠ ty) :
    (c.set ty d).get? other = c.get? other := by
  have hne : ty ≠ other := Ne.symm h
  simp only [get?, set, List.find?_cons, hne, decide_false, List.find?_filter]
  congr 2
  funext entry
  by_cases hk : entry.1 = other <;> simp [hk, h]

/-! ## Members that need no declaration -/

/-- The number of elements of a list, as a word. -/
def count : Member σ :=
  .property "Count" .int fun target =>
    HostM.ofExcept <| (target.toList.mapError EvalError.message).map fun items =>
      .number (.ofInt .int items.length)

/-- The number of characters of a text, as a word. -/
def length : Member σ :=
  .property "Length" .int fun target =>
    HostM.ofExcept <| (target.toText.mapError EvalError.message).map fun s =>
      .number (.ofInt .int s.length)

/-- The member of a name that a type has without a declaration. -/
def intrinsic? (ty : Ty) (name : String) : Option (Member σ) :=
  match ty with
  | .list _ => if name = "Count" then some count else none
  | .string => if name = "Length" then some length else none
  | _ => none

/-! ## Looking up -/

/-- The members of a name on a type, declared ones first. -/
def members (c : Catalog σ) (ty : Ty) (name : String) : List (Member σ) :=
  (c.definition ty).members.filter (·.name = name) ++ (intrinsic? ty name).toList

/-- The methods of a name on a type. -/
def methods (c : Catalog σ) (ty : Ty) (name : String) : List (Method σ) :=
  (c.definition ty).methods.filter (·.name = name)

/-- A type has a generic method of a name. -/
def hasGenericMethod (c : Catalog σ) (ty : Ty) (name : String) : Bool :=
  (c.methods ty name).any (·.isGeneric)

end Catalog

end HostExpr
