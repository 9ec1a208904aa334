-- SUMMARY: Expressions as bases with rows of suffixes.
import HostExpr.Proofs.Expr.Written

/-!
# Bases and suffixes

Member accesses, method calls and indexing are written behind what they apply to. So an expression that
begins with no operator and no cast is a base with a row of suffixes, and its text begins with the text of
the base: that is how it is read, although the tree has its last suffix on top.
-/

namespace HostExpr

variable {σ : Type}

/-! ## Suffixes -/

/-- What goes on with an expression: a member, the call of a method, or an index. -/
inductive Suffix (σ : Type) where
  | property (member : Member σ)
  | method (callee : Method σ) (args : List (Expr σ))
  | element (index : Expr σ) (type : Ty)

namespace Suffix

/-- The expression with the suffix behind it. -/
def on (e : Expr σ) : Suffix σ → Expr σ
  | property member => .property e member
  | method callee args => .method e callee args
  | element index type => .element e index type

/-- The expressions in the suffix. -/
def parts : Suffix σ → List (Expr σ)
  | property _ => []
  | method _ args => args
  | element index _ => [index]

/-- The characters that the suffix adds to the text. -/
def chars : Suffix σ → List Char
  | property member => '.' :: member.name.toList
  | method callee args =>
    '.' :: (callee.name.toList ++ ((Method.bracketed (callee.typeArgs.map Ty.text)).toList ++
      '(' :: ((", ".intercalate (args.map Expr.text)).toList ++ [')'])))
  | element index _ => '[' :: (index.text.toList ++ [']'])

theorem toList_text_on (t : Suffix σ) (e : Expr σ) :
    (t.on e).text.toList = e.text.toList ++ t.chars := by
  cases t <;> simp [on, chars, Expr.text, Expr.texts_eq_map]

theorem children_on (t : Suffix σ) (e : Expr σ) : (t.on e).children = e :: t.parts := by
  cases t <;> rfl

end Suffix

namespace Expr

/-! ## Rows of suffixes -/

/-- The expression with suffixes behind it, the first one next to it. -/
def withSuffixes (e : Expr σ) (ts : List (Suffix σ)) : Expr σ := ts.foldl (fun e t => t.on e) e

variable {e : Expr σ} {P : Expr σ → Prop}

theorem toList_text_withSuffixes (e : Expr σ) (ts : List (Suffix σ)) :
    (e.withSuffixes ts).text.toList = e.text.toList ++ ts.flatMap Suffix.chars := by
  induction ts generalizing e with
  | nil => simp [withSuffixes]
  | cons t ts ih =>
    rw [List.flatMap_cons, ← List.append_assoc, ← t.toList_text_on e]
    exact ih (t.on e)

theorem Everywhere.of_withSuffixes {ts : List (Suffix σ)} (h : (e.withSuffixes ts).Everywhere P) :
    e.Everywhere P := by
  induction ts generalizing e with
  | nil => exact h
  | cons t ts ih => exact (ih (e := t.on e) h).first (t.children_on e)

/-! ## Bases -/

/-- The expression is an operator or a cast before an operand. -/
def isPrefixed : Expr σ → Bool
  | logicalUnary _ _ | arithmeticUnary _ _ _ | convert _ _ => true
  | _ => false

/-- The expression is written as another one with a suffix. -/
def isSuffixed : Expr σ → Bool
  | property _ _ | method _ _ _ | element _ _ _ => true
  | _ => false

/-- The expression begins the texts of those that are written with suffixes behind it. -/
def IsBase (e : Expr σ) : Prop := e.isPrefixed = false ∧ e.isSuffixed = false

/-- No suffix stands behind an operator or a cast with its operand. -/
def GroupsSuffixes : Expr σ → Prop
  | property object _ | method object _ _ => object.isPrefixed = false
  | element list _ _ => list.isPrefixed = false
  | _ => True

theorem groupsSuffixes_on {t : Suffix σ} : (t.on e).GroupsSuffixes ↔ e.isPrefixed = false := by
  cases t <;> rfl

/-- An expression that is written with a suffix is one with a suffix on it. -/
theorem exists_on (h : e.isSuffixed) : ∃ (object : Expr σ) (t : Suffix σ), e = t.on object := by
  cases e with
  | property object member => exact ⟨object, .property member, rfl⟩
  | method object callee args => exact ⟨object, .method callee args, rfl⟩
  | element list index type => exact ⟨list, .element index type, rfl⟩
  | _ => cases h

/-- An expression that begins with no operator and no cast is a base with suffixes. -/
theorem exists_base (hgroups : e.Everywhere GroupsSuffixes) (h : e.isPrefixed = false) :
    ∃ (base : Expr σ) (ts : List (Suffix σ)), base.IsBase ∧ e = base.withSuffixes ts := by
  induction e using children_induction with
  | node e ih =>
    by_cases hsuffix : e.isSuffixed
    · obtain ⟨object, t, rfl⟩ := exists_on hsuffix
      have hmem : object ∈ (t.on object).children := by
        rw [t.children_on]
        exact List.mem_cons_self ..
      have hobject := groupsSuffixes_on.1 hgroups.here
      obtain ⟨base, ts, hbase, rfl⟩ := ih object hmem (hgroups.child hmem) hobject
      refine ⟨base, ts ++ [t], hbase, ?_⟩
      rw [withSuffixes, withSuffixes, List.foldl_append]
      rfl
    · exact ⟨e, [], ⟨h, eq_false_of_ne_true hsuffix⟩, rfl⟩

end Expr

end HostExpr
