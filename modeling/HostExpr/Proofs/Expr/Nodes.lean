-- SUMMARY: The nodes of an expression tree, and induction over trees.
import HostExpr.Expr

/-!
# Nodes of a tree

`children` lists the expressions right below a node, and `IsNode` says that a node occurs in a tree.
A property of single nodes holds everywhere in a tree if it holds at the top and everywhere in the
trees below (`everywhere_iff`). The type of trees is nested in that of lists, so induction over trees
is stated here once, with a case for each constructor.
-/

namespace HostExpr.Expr

variable {σ : Type}

/-! ## Induction -/

/-- Induction over trees. The arguments of a call are below the call one by one. -/
@[elab_as_elim, induction_eliminator]
theorem induction {P : Expr σ → Prop} (bool : ∀ b, P (.bool b))
    (number : ∀ value kind, P (.number value kind)) (string : ∀ text, P (.string text))
    (enum : ∀ value, P (.enum value))
    (logicalUnary : ∀ op operand, P operand → P (.logicalUnary op operand))
    (logical : ∀ op left right, P left → P right → P (.logical op left right))
    (arithmeticUnary : ∀ op operand type, P operand → P (.arithmeticUnary op operand type))
    (arithmetic : ∀ op left right type, P left → P right → P (.arithmetic op left right type))
    (comparison : ∀ op left right, P left → P right → P (.comparison op left right))
    (conditional : ∀ condition left right, P condition → P left → P right →
      P (.conditional condition left right))
    (var : ∀ name type, P (.var name type)) (typeName : ∀ name type, P (.typeName name type))
    (castTarget : ∀ type, P (.castTarget type))
    (convert : ∀ type operand, P operand → P (.convert type operand))
    (call : ∀ callee args, (∀ arg ∈ args, P arg) → P (.call callee args))
    (property : ∀ object member, P object → P (.property object member))
    (method : ∀ object callee args, P object → (∀ arg ∈ args, P arg) →
      P (.method object callee args))
    (element : ∀ list index type, P list → P index → P (.element list index type)) (e : Expr σ) :
    P e := by
  refine @Expr.rec σ P (fun es => ∀ e ∈ es, P e) bool number string enum logicalUnary logical
    arithmeticUnary arithmetic comparison conditional var typeName castTarget convert call property
    method element ?_ ?_ e
  · simp
  · intro first rest hfirst hrest
    exact List.forall_mem_cons.2 ⟨hfirst, hrest⟩

/-! ## Nodes -/

/-- The expressions right below a node, from left to right. -/
def children : Expr σ → List (Expr σ)
  | bool _ | number _ _ | string _ | enum _ | var _ _ | typeName _ _ | castTarget _ => []
  | logicalUnary _ operand | arithmeticUnary _ operand _ | convert _ operand => [operand]
  | logical _ left right | arithmetic _ left right _ | comparison _ left right => [left, right]
  | conditional condition left right => [condition, left, right]
  | call _ args => args
  | property object _ => [object]
  | method object _ args => object :: args
  | element list index _ => [list, index]

/-- Induction over trees, for proofs that do not look at the form of a node. -/
theorem children_induction {P : Expr σ → Prop}
    (node : ∀ e, (∀ child ∈ e.children, P child) → P e) (e : Expr σ) : P e := by
  induction e with
  | bool | number | string | enum | var | typeName | castTarget => exact node _ nofun
  | logicalUnary _ _ ih | arithmeticUnary _ _ _ ih | convert _ _ ih | property _ _ ih =>
    exact node _ (List.forall_mem_cons.2 ⟨ih, nofun⟩)
  | logical _ _ _ ih₁ ih₂ | arithmetic _ _ _ _ ih₁ ih₂ | comparison _ _ _ ih₁ ih₂
  | element _ _ _ ih₁ ih₂ =>
    exact node _ (List.forall_mem_cons.2 ⟨ih₁, List.forall_mem_cons.2 ⟨ih₂, nofun⟩⟩)
  | conditional _ _ _ ih₁ ih₂ ih₃ =>
    exact node _ (List.forall_mem_cons.2 ⟨ih₁, List.forall_mem_cons.2 ⟨ih₂,
      List.forall_mem_cons.2 ⟨ih₃, nofun⟩⟩⟩)
  | call _ _ ih => exact node _ ih
  | method _ _ _ ih₁ ih₂ => exact node _ (List.forall_mem_cons.2 ⟨ih₁, ih₂⟩)

/-- The node occurs in the tree: it is the tree, or it occurs right below a node that does. -/
inductive IsNode (root : Expr σ) : Expr σ → Prop
  | root : IsNode root root
  | child {parent node : Expr σ} : IsNode root parent → node ∈ parent.children → IsNode root node

/-- Every node of the tree has a property. -/
def Everywhere (P : Expr σ → Prop) (root : Expr σ) : Prop := ∀ node, root.IsNode node → P node

/-- A node of a subtree is a node of the tree. -/
theorem IsNode.trans {root middle node : Expr σ} (hm : root.IsNode middle)
    (hn : middle.IsNode node) : root.IsNode node := by
  induction hn with
  | root => exact hm
  | child _ hmem ih => exact .child ih hmem

/-- A node is the tree itself, or it occurs in a tree below. -/
theorem isNode_iff {root node : Expr σ} :
    root.IsNode node ↔ node = root ∨ ∃ child ∈ root.children, child.IsNode node := by
  constructor
  · intro h
    induction h with
    | root => exact .inl rfl
    | child _ hmem ih =>
      rcases ih with rfl | ⟨child, hchild, hnode⟩
      · exact .inr ⟨_, hmem, .root⟩
      · exact .inr ⟨child, hchild, .child hnode hmem⟩
  · rintro (rfl | ⟨child, hchild, hnode⟩)
    · exact .root
    · exact (IsNode.child .root hchild).trans hnode

theorem everywhere_iff {P : Expr σ → Prop} {root : Expr σ} :
    root.Everywhere P ↔ P root ∧ ∀ child ∈ root.children, child.Everywhere P := by
  constructor
  · intro h
    exact ⟨h root .root, fun child hchild node hnode =>
      h node ((IsNode.child .root hchild).trans hnode)⟩
  · rintro ⟨hroot, hchildren⟩ node hnode
    rcases isNode_iff.1 hnode with rfl | ⟨child, hchild, hnode⟩
    · exact hroot
    · exact hchildren child hchild node hnode

namespace Everywhere

variable {P Q : Expr σ → Prop} {root left right : Expr σ}

theorem here (h : root.Everywhere P) : P root := h root .root

theorem child (h : root.Everywhere P) {e : Expr σ} (he : e ∈ root.children) : e.Everywhere P :=
  (everywhere_iff.1 h).2 e he

theorem first {e : Expr σ} {es : List (Expr σ)} (h : root.Everywhere P)
    (hchildren : root.children = e :: es) : e.Everywhere P :=
  h.child (by rw [hchildren]; exact List.mem_cons_self ..)

theorem second {e e' : Expr σ} {es : List (Expr σ)} (h : root.Everywhere P)
    (hchildren : root.children = e' :: e :: es) : e.Everywhere P :=
  h.child (by rw [hchildren]; exact List.mem_cons_of_mem _ (List.mem_cons_self ..))

theorem third {e e' e'' : Expr σ} {es : List (Expr σ)} (h : root.Everywhere P)
    (hchildren : root.children = e'' :: e' :: e :: es) : e.Everywhere P :=
  h.child (by rw [hchildren]; exact List.mem_cons_of_mem _ (List.mem_cons_of_mem _
    (List.mem_cons_self ..)))

theorem leaf (hnone : root.children = []) (hroot : P root) : root.Everywhere P :=
  everywhere_iff.2 ⟨hroot, by rw [hnone]; nofun⟩

theorem one (hone : root.children = [left]) (hroot : P root) (hleft : left.Everywhere P) :
    root.Everywhere P :=
  everywhere_iff.2 ⟨hroot, by rw [hone]; exact List.forall_mem_cons.2 ⟨hleft, nofun⟩⟩

theorem two (htwo : root.children = [left, right]) (hroot : P root) (hleft : left.Everywhere P)
    (hright : right.Everywhere P) : root.Everywhere P := by
  refine everywhere_iff.2 ⟨hroot, ?_⟩
  rw [htwo]
  exact List.forall_mem_cons.2 ⟨hleft, List.forall_mem_cons.2 ⟨hright, nofun⟩⟩

theorem mono (h : root.Everywhere P) (hPQ : ∀ node, P node → Q node) : root.Everywhere Q :=
  fun node hnode => hPQ node (h node hnode)

end Everywhere

end HostExpr.Expr
