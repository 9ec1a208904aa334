-- SUMMARY: A catalog answers from the whole history of its declarations, type by type and in order.
import HostExpr.Catalog

/-!
# Histories of declarations

A catalog is built by declarations, on any types and in any order. A declaration adds its content to the
definition of its type, at the end, and leaves the other definitions alone (`definition_declare`). So after
any history the definition of a type is what the history declares on that type, in the same order
(`definition_declareAll`), and that is what both lookups answer from.
-/

namespace HostExpr

variable {σ : Type} {ty : Ty}

/-- One declaration of the host. -/
inductive Declaration (σ : Type) where
  /-- A type is a defined one. -/
  | define (ty : Ty)
  | member (ty : Ty) (m : Member σ)
  | method (ty : Ty) (m : Method σ)

namespace Declaration

/-- The type that something is declared on. -/
def type : Declaration σ → Ty
  | .define ty => ty
  | .member ty _ => ty
  | .method ty _ => ty

/-- What is declared there. -/
def content : Declaration σ → TypeDef σ
  | .define _ => ⟨[], []⟩
  | .member _ m => ⟨[m], []⟩
  | .method _ m => ⟨[], [m]⟩

/-- The member that is declared on a type, if the declaration is of that kind. -/
def memberOn? (ty : Ty) : Declaration σ → Option (Member σ)
  | .define _ => none
  | .member other m => if other = ty then some m else none
  | .method _ _ => none

/-- The method that is declared on a type, if the declaration is of that kind. -/
def methodOn? (ty : Ty) : Declaration σ → Option (Method σ)
  | .define _ => none
  | .member _ _ => none
  | .method other m => if other = ty then some m else none

end Declaration

/-! ## What is declared on a type -/

namespace TypeDef

/-- Two definitions in one, what the first one declares in front. -/
instance : Append (TypeDef σ) where
  append d d' := ⟨d.members ++ d'.members, d.methods ++ d'.methods⟩

theorem append_eq (d d' : TypeDef σ) :
    d ++ d' = ⟨d.members ++ d'.members, d.methods ++ d'.methods⟩ := rfl

theorem append_nil (d : TypeDef σ) : d ++ (⟨[], []⟩ : TypeDef σ) = d := by
  rw [append_eq, List.append_nil, List.append_nil]

theorem append_assoc (d d' d'' : TypeDef σ) : d ++ d' ++ d'' = d ++ (d' ++ d'') := by
  rw [append_eq, append_eq, List.append_assoc, List.append_assoc]
  rfl

/-- What a history declares on a type. -/
def ofHistory (ty : Ty) (ds : List (Declaration σ)) : TypeDef σ where
  members := ds.filterMap (·.memberOn? ty)
  methods := ds.filterMap (·.methodOn? ty)

theorem ofHistory_cons_of_eq {d : Declaration σ} (h : d.type = ty) (ds : List (Declaration σ)) :
    ofHistory ty (d :: ds) = d.content ++ ofHistory ty ds := by
  cases d with
  | define other => rfl
  | member other m =>
    have hm : (Declaration.member other m).memberOn? ty = some m := if_pos h
    rw [ofHistory, List.filterMap_cons_some hm]
    rfl
  | method other m =>
    have hm : (Declaration.method other m).methodOn? ty = some m := if_pos h
    rw [ofHistory, List.filterMap_cons_some hm]
    rfl

theorem ofHistory_cons_of_ne {d : Declaration σ} (h : d.type ≠ ty) (ds : List (Declaration σ)) :
    ofHistory ty (d :: ds) = ofHistory ty ds := by
  cases d with
  | define other => rfl
  | member other m =>
    have hm : (Declaration.member other m).memberOn? ty = none := if_neg h
    rw [ofHistory, List.filterMap_cons_none hm]
    rfl
  | method other m =>
    have hm : (Declaration.method other m).methodOn? ty = none := if_neg h
    rw [ofHistory, List.filterMap_cons_none hm]
    rfl

/-- A history declares on a type what its declarations on that type do. -/
theorem ofHistory_filter (ty : Ty) (ds : List (Declaration σ)) :
    ofHistory ty (ds.filter (·.type = ty)) = ofHistory ty ds := by
  induction ds with
  | nil => rfl
  | cons d ds ih =>
    rw [List.filter_cons]
    by_cases h : d.type = ty
    · rw [if_pos (decide_eq_true h), ofHistory_cons_of_eq h, ofHistory_cons_of_eq h, ih]
    · rw [if_neg (by simpa using h), ofHistory_cons_of_ne h, ih]

end TypeDef

namespace Catalog

/-! ## One declaration -/

/-- Declares something. -/
def declare (c : Catalog σ) : Declaration σ → Catalog σ
  | .define ty => c.define ty
  | .member ty m => c.addMember ty m
  | .method ty m => c.addMethod ty m

theorem definition_set (c : Catalog σ) (ty other : Ty) (d : TypeDef σ) :
    (c.set other d).definition ty = if other = ty then d else c.definition ty := by
  unfold definition
  split
  case isTrue h => rw [h, get?_set_self, Option.getD_some]
  case isFalse h => rw [get?_set_of_ne c d (Ne.symm h)]

theorem declare_eq_set (c : Catalog σ) (d : Declaration σ) :
    c.declare d = c.set d.type (c.definition d.type ++ d.content) := by
  refine Eq.trans ?_ (congrArg (c.set d.type) (TypeDef.append_eq _ _).symm)
  cases d with
  | define ty => exact congrArg (c.set ty) (TypeDef.append_nil _).symm
  | member ty m => rw [Declaration.content, List.append_nil]; rfl
  | method ty m => rw [Declaration.content, List.append_nil]; rfl

/-- A declaration adds its content at the end of the definition of its type. -/
theorem definition_declare_of_eq {d : Declaration σ} (h : d.type = ty) (c : Catalog σ) :
    (c.declare d).definition ty = c.definition ty ++ d.content := by
  rw [declare_eq_set, definition_set, if_pos h, h]

/-- A declaration leaves the definitions of other types alone. -/
theorem definition_declare_of_ne {d : Declaration σ} (h : d.type ≠ ty) (c : Catalog σ) :
    (c.declare d).definition ty = c.definition ty := by
  rw [declare_eq_set, definition_set, if_neg h]

/-! ## A history of declarations -/

/-- Declares one thing after another. -/
def declareAll (c : Catalog σ) (ds : List (Declaration σ)) : Catalog σ := ds.foldl declare c

theorem definition_declareAll (c : Catalog σ) (ty : Ty) (ds : List (Declaration σ)) :
    (c.declareAll ds).definition ty = c.definition ty ++ TypeDef.ofHistory ty ds := by
  induction ds generalizing c with
  | nil => exact (TypeDef.append_nil _).symm
  | cons d ds ih =>
    rw [declareAll, List.foldl_cons, ← declareAll, ih]
    by_cases h : d.type = ty
    · rw [definition_declare_of_eq h, TypeDef.ofHistory_cons_of_eq h, TypeDef.append_assoc]
    · rw [definition_declare_of_ne h, TypeDef.ofHistory_cons_of_ne h]

theorem methods_declareAll (c : Catalog σ) (ty : Ty) (ds : List (Declaration σ)) :
    ((c.declareAll ds).definition ty).methods =
      (c.definition ty).methods ++ ds.filterMap (·.methodOn? ty) :=
  congrArg TypeDef.methods (definition_declareAll c ty ds)

/-! ## Lookups -/

/-- The members that are there without a declaration: `Count` of lists, and `Length` of texts. -/
inductive Carries : Ty → String → Member σ → Prop
  | count {element : Ty} : Carries (.list element) "Count" count
  | length : Carries .string "Length" length

theorem intrinsic?_eq_some_iff {name : String} {m : Member σ} :
    intrinsic? ty name = some m ↔ Carries ty name m := by
  constructor
  · intro h
    unfold intrinsic? at h
    split at h
    case h_1 element =>
      obtain ⟨rfl, hm⟩ := Option.ite_none_right_eq_some.1 h
      cases hm
      exact .count
    case h_2 =>
      obtain ⟨rfl, hm⟩ := Option.ite_none_right_eq_some.1 h
      cases hm
      exact .length
    case h_3 => cases h
  · rintro ⟨⟩ <;> rfl

/-- After any history of declarations, what a catalog says of a name on a type are the declarations of that
name on that type, in their order; behind the members comes the one that is there without a declaration, if
the name is its name. What else was declared, and when, does not matter: without the declarations on other
types the answers are the same. -/
theorem lookups_of_history (history : List (Declaration σ)) (ty : Ty) (name : String) :
    let c : Catalog σ := empty.declareAll history
    let alone : Catalog σ := empty.declareAll (history.filter (·.type = ty))
    c.methods ty name = (history.filterMap (·.methodOn? ty)).filter (·.name = name) ∧
      c.members ty name = (history.filterMap (·.memberOn? ty)).filter (·.name = name) ++
        (intrinsic? ty name).toList ∧
      (∀ m, intrinsic? ty name = some m ↔ Carries (σ := σ) ty name m) ∧
      c.methods ty name = alone.methods ty name ∧ c.members ty name = alone.members ty name := by
  intro c alone
  have hdefinition (ds : List (Declaration σ)) :
      (empty.declareAll ds).definition ty = TypeDef.ofHistory ty ds :=
    definition_declareAll empty ty ds
  have halone : c.definition ty = alone.definition ty := by
    rw [hdefinition, hdefinition, TypeDef.ofHistory_filter]
  refine ⟨?_, ?_, fun m => intrinsic?_eq_some_iff, ?_, ?_⟩
  · rw [methods, hdefinition]
    rfl
  · rw [members, hdefinition]
    rfl
  · rw [methods, halone, methods]
  · rw [members, halone, members]

end Catalog

end HostExpr
