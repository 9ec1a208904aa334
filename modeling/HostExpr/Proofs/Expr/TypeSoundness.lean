-- SUMMARY: The evaluation of a well-formed tree keeps to the types of its nodes.
import HostExpr.Proofs.Expr.Formed
import HostExpr.Proofs.Inhabits

/-!
# Type soundness of evaluation

A well-formed tree evaluates to a value of its type if its variables are bound to values of their types
and the host returns values of the types that it declared. What may go wrong depends on values only: a
conversion, an index, or the host itself.

Two things are left out, since no type tells of them. A cast to a list type gives back a list with the
items it had, or the absent value. A type name has no value; it belongs before a point.
-/

namespace HostExpr

variable {σ : Type}

/-! ## Assumptions -/

/-- The failure is one that types do not rule out. -/
def EvalError.IsDynamic : EvalError → Prop
  | conversionFailed _ _ _ | hostFailure _ _ | indexOutOfBounds _ _ => True
  | _ => False

/-- The failure is that of a conversion or of the host. -/
def EvalError.IsForeign : EvalError → Prop
  | conversionFailed _ _ _ | hostFailure _ _ => True
  | _ => False

theorem EvalError.IsForeign.isDynamic {e : EvalError} (h : e.IsForeign) : e.IsDynamic := by
  cases e with
  | conversionFailed | hostFailure => trivial
  | _ => exact h.elim

/-- After every run that leaves the host satisfying `I`, the host satisfied it before, and a result is a
value of the type. -/
def HostM.KeepsTo (I : σ → Prop) (ty : Ty) (action : HostM σ Value) : Prop :=
  ∀ host, I (action host).2 → I host ∧ ∀ v, (action host).1 = .ok v → v.Inhabits ty

/-! ## Values -/

namespace Value

open EvalM

variable {E : EvalError → Prop}

theorem castTo_sound (v : Value) {type : Ty} (hlist : ∀ element, type ≠ .list element)
    (hforeign : ∀ e, e.IsForeign → E e) :
    Outcome (fun w => w.Inhabits type) E (v.castTo type) := by
  unfold castTo
  cases hconvert : convert v type with
  | error details => exact hforeign _ trivial
  | ok w => exact convert_inhabits hconvert hlist

theorem toList_sound {v : Value} {type : Ty} (h : v.Inhabits (.list type)) :
    Outcome (fun items => ∀ item ∈ items, item.Inhabits type) E v.toList := by
  obtain ⟨items, hok, hitems⟩ := h.toList_ok
  rw [hok]
  exact hitems

theorem element_sound {items : List Value} {type : Ty} (h : ∀ item ∈ items, item.Inhabits type)
    (hbounds : ∀ i length, E (.indexOutOfBounds i length)) (index : Float) :
    Outcome (fun v => v.Inhabits type) E (Value.element items index) := by
  cases helement : Value.element items index with
  | ok v => exact h v (mem_of_element_eq_ok helement)
  | error e =>
    unfold Value.element at helement
    split at helement <;> cases helement
    exact hbounds _ _

end Value

/-! ## Nodes -/

namespace Expr

/-- The expressions below a node on whose values it works: all but what stands before a point. -/
def operands : Expr σ → List (Expr σ)
  | property _ _ => []
  | method _ _ args => args
  | e => e.children

/-- The node is no cast to a list type, and none of its operands is the name of a type. -/
def Plain (node : Expr σ) : Prop :=
  (∀ element operand, node ≠ convert (.list element) operand) ∧
    ∀ operand ∈ node.operands, ∀ name type, operand ≠ typeName name type

/-- A variable is bound to a value of its type. -/
def BoundIn (bindings : Names Value) : Expr σ → Prop
  | var name type => ∃ v, bindings.find? name = some v ∧ v.Inhabits type
  | _ => True

/-- What the node calls on the host keeps to its declared type. -/
def Honest (I : σ → Prop) : Expr σ → Prop
  | call callee _ => ∀ args, HostM.KeepsTo I callee.returns (callee.call args)
  | property _ member => ∀ target, HostM.KeepsTo I member.type (member.read target)
  | method _ callee _ =>
    ∀ target args, HostM.KeepsTo I callee.returns (callee.invoke target args)
  | _ => True

/-- What the evaluation of a node needs to keep to its type and to fail as `E` says: no cast to a list
type, and no element of a type name. -/
structure Steady (I : σ → Prop) (E : EvalError → Prop) (bindings : Names Value) (node : Expr σ) :
    Prop where
  formed : node.Formed
  unlisted : ∀ element operand, node ≠ convert (.list element) operand
  indexed : ∀ list index type, node = element list index type →
    (∀ name ty, list ≠ typeName name ty) ∧ ∀ i length, E (.indexOutOfBounds i length)
  bound : node.BoundIn bindings
  honest : node.Honest I

/-- What is assumed of a node for its evaluation to keep to its type. -/
structure Sound (I : σ → Prop) (bindings : Names Value) (node : Expr σ) : Prop where
  formed : node.Formed
  plain : node.Plain
  bound : node.BoundIn bindings
  honest : node.Honest I

theorem Sound.steady {I : σ → Prop} {bindings : Names Value} {node : Expr σ}
    (h : node.Sound I bindings) : node.Steady I EvalError.IsDynamic bindings where
  formed := h.formed
  unlisted := h.plain.1
  indexed := by
    rintro list index type rfl
    exact ⟨h.plain.2 list (List.mem_cons_self ..), fun _ _ => trivial⟩
  bound := h.bound
  honest := h.honest

/-! ## Roles and types -/

theorem isNumeric_iff {e : Expr σ} :
    e.isNumeric ↔ e.isTypeReference = false ∧ e.type.isNumeric := by
  simp [isNumeric]

theorem isBoolean_iff {e : Expr σ} :
    e.isBoolean ↔ e.isTypeReference = false ∧ e.type = .bool := by
  simp [isBoolean]

/-- The answer is one of the expression: a value of its type, unless the expression is none. -/
def Answers (e : Expr σ) (a : Answer) : Prop :=
  e.isTypeReference = false → a.toValue.Inhabits e.type

namespace Answers

open EvalM

variable {e : Expr σ} {a : Answer} {E : EvalError → Prop}

theorem number_ok (ha : e.Answers a) (he : e.isNumeric) : ∃ x, a.toNumber = .ok x := by
  obtain ⟨hvalue, hnum⟩ := isNumeric_iff.1 he
  exact Answer.toNumber_ok (ha hvalue) hnum

theorem toNumber (ha : e.Answers a) (he : e.isNumeric) : Outcome (fun _ => True) E a.toNumber := by
  obtain ⟨x, hx⟩ := ha.number_ok he
  rw [hx]
  trivial

theorem toBool (ha : e.Answers a) (he : e.isBoolean) : Outcome (fun _ => True) E a.toBool := by
  obtain ⟨hvalue, hbool⟩ := isBoolean_iff.1 he
  have hinhabits := ha hvalue
  rw [hbool] at hinhabits
  obtain ⟨b, hb⟩ := Answer.toBool_ok hinhabits
  rw [hb]
  trivial

/-- An expression of its own type can be an argument for any parameter. -/
theorem toArgument (ha : e.Answers a) (param : Ty) :
    Outcome (fun _ => True) E (a.toArgument e.isNumeric param) := by
  unfold Answer.toArgument
  split
  · rename_i hnum
    obtain ⟨x, hx⟩ := ha.number_ok (Bool.and_eq_true_iff.1 hnum).2
    rw [hx]
    trivial
  · trivial

end Answers

/-! ## Evaluation -/

open EvalM

variable {I : σ → Prop} {E : EvalError → Prop} {bindings : Names Value}

/-- What is called on a host that keeps to its types ends in a value of the declared type. -/
theorem ends_callFor {P : Prop} {callee : String} {ty : Ty} {action : HostM σ Value}
    (hforeign : ∀ e, e.IsForeign → E e) (h : HostM.KeepsTo I ty action) :
    Ends I P (HostM.callFor callee action) (fun v => v.Inhabits ty) E := by
  refine .callFor (fun host hI => ?_) fun _ => hforeign _ trivial
  obtain ⟨hhost, hv⟩ := h host hI
  exact ⟨hhost, fun v heq _ => hv v heq⟩

/-- Evaluating a well-formed tree ends in an answer of its type or in a failure that types do not rule
out. By induction on the tree; the parts of a node are evaluated one after the other, each knowing the
answers of those before it. -/
theorem answer_steady (hforeign : ∀ e, e.IsForeign → E e) {e : Expr σ}
    (h : e.Everywhere (Steady I E bindings)) : Ends I True (e.answer bindings) e.Answers E := by
  induction e with
  | bool =>
    rw [answer]
    exact .pure fun _ _ => ⟨_, rfl⟩
  | number value kind =>
    rw [answer]
    exact .pure fun _ _ => ⟨_, rfl, Number.kind_ofDouble kind value⟩
  | string =>
    rw [answer]
    exact .pure fun _ _ => .inr ⟨_, rfl⟩
  | enum =>
    rw [answer]
    exact .pure fun _ _ => ⟨_, rfl, rfl⟩
  | typeName =>
    rw [answer]
    refine .pure fun _ hvalue => ?_
    cases hvalue
  | castTarget type => exact absurd h.here.formed id
  | var name type =>
    obtain ⟨v, hv, hinhabits⟩ := h.here.bound
    rw [answer, hv]
    exact .pure fun _ _ => hinhabits
  | logicalUnary op operand ih =>
    have ih := ih (h.first rfl)
    obtain ⟨-, hbool⟩ := h.here.formed
    rw [answer]
    refine .bind ih fun a => .bind (.lift fun ha => ha.2.toBool hbool) fun b => ?_
    exact .pure fun _ _ => ⟨_, rfl⟩
  | logical op left right ihl ihr =>
    have ihl := ihl (h.first rfl)
    have ihr := ihr (h.second rfl)
    obtain ⟨-, hleft, hright⟩ := h.here.formed
    rw [answer]
    refine .bind ihl fun a => .bind (.lift fun ha => ha.2.toBool hleft) fun b => ?_
    -- The last case alone evaluates the right operand.
    split
    case h_4 =>
      refine .bind ihr.given fun a => .bind (.lift fun ha => ha.2.toBool hright) fun b => ?_
      exact .pure fun _ _ => ⟨_, rfl⟩
    all_goals exact .pure fun _ _ => ⟨_, rfl⟩
  | arithmeticUnary op operand type ih =>
    have ih := ih (h.first rfl)
    obtain ⟨hop, hnum, htype⟩ := h.here.formed
    have hnumeric : type.isNumeric := htype ▸ (isNumeric_iff.1 hnum).2
    rw [answer]
    refine .bind ih fun a => .bind (.lift fun ha => ha.2.toNumber hnum) fun x => ?_
    rcases hop with rfl | rfl <;> exact .pure fun _ _ => Value.ofDouble_inhabits hnumeric _
  | arithmetic op left right type ihl ihr =>
    have ihl := ihl (h.first rfl)
    have ihr := ihr (h.second rfl)
    obtain ⟨-, hleft, hright, htype⟩ := h.here.formed
    have hnumeric : type.isNumeric := htype ▸ Ty.isNumeric_promote (isNumeric_iff.1 hleft).2
    rw [answer]
    refine .bind ihl fun a => .bind (.lift fun ha => ha.2.toNumber hleft) fun x => ?_
    refine .bind ihr.given fun a => .bind (.lift fun ha => ha.2.toNumber hright) fun y => ?_
    exact .pure fun _ _ => Value.ofDouble_inhabits hnumeric _
  | comparison op left right ihl ihr =>
    have ihl := ihl (h.first rfl)
    have ihr := ihr (h.second rfl)
    obtain ⟨hleft, hright⟩ := h.here.formed
    rw [answer]
    refine .bind ihl fun a => .bind (.lift fun ha => ha.2.toNumber hleft) fun x => ?_
    refine .bind ihr.given fun a => .bind (.lift fun ha => ha.2.toNumber hright) fun y => ?_
    exact .pure fun _ _ => ⟨_, rfl⟩
  | conditional condition left right ihc ihl ihr =>
    have ihc := ihc (h.first rfl)
    have ihl := ihl (h.second rfl)
    have ihr := ihr (h.third rfl)
    obtain ⟨hbool, hleft, hright⟩ := h.here.formed
    rw [answer]
    refine .bind ihc fun a => .bind (.lift fun ha => ha.2.toBool hbool) fun b => .ite ?_ ?_
    · intro _
      refine .bind ihl.given fun a => .bind (.lift fun ha => ha.2.toNumber hleft) fun x => ?_
      exact .pure fun _ _ => ⟨_, rfl, rfl⟩
    · intro _
      refine .bind ihr.given fun a => .bind (.lift fun ha => ha.2.toNumber hright) fun x => ?_
      exact .pure fun _ _ => ⟨_, rfl, rfl⟩
  | convert type operand ih =>
    have ih := ih (h.first rfl)
    have hlist : ∀ element, type ≠ .list element :=
      fun element heq => h.here.unlisted element operand (heq ▸ rfl)
    rw [answer]
    refine .bind ih fun a => .bind (.lift fun _ => a.toValue.castTo_sound hlist hforeign) fun v => ?_
    exact .pure fun hv _ => hv.2
  | call callee args ih =>
    have ih := fun arg harg => ih arg harg (h.child harg)
    rw [answer]
    refine .bind (arguments_ends ih (fun _ _ a ha param => ha.toArgument param) _) fun vs => ?_
    exact .bind (ends_callFor hforeign (h.here.honest vs)) fun v => .pure fun hv _ => hv.2
  | property object member ih =>
    have ih := ih (h.first rfl)
    rw [answer]
    refine .ite ?_ ?_
    · intro _
      exact .bind (ends_callFor hforeign (h.here.honest none)) fun v => .pure fun hv _ => hv.2
    · intro _
      refine .bind ih fun a => ?_
      exact .bind (ends_callFor hforeign (h.here.honest _)) fun v => .pure fun hv _ => hv.2
  | method object callee args iho ih =>
    have iho := iho (h.child (List.mem_cons_self ..))
    have ih := fun arg harg => ih arg harg (h.child (List.mem_cons_of_mem _ harg))
    rw [answer]
    refine .bind iho fun a => ?_
    refine .bind (arguments_ends ih (fun _ _ a ha param => ha.toArgument param) _).given fun vs => ?_
    refine .bind (ends_callFor hforeign ?_) fun v => .pure fun hv _ => hv.2
    split
    · exact h.here.honest none _
    · split <;> exact h.here.honest _ _
  | element list index type ihl ihi =>
    have ihl := ihl (h.first rfl)
    have ihi := ihi (h.second rfl)
    obtain ⟨htype, hnum⟩ := h.here.formed
    rw [answer]
    refine .bind ihi fun a => .bind (.lift fun ha => ha.2.toNumber hnum) fun x => ?_
    obtain ⟨hname, hbounds⟩ := h.here.indexed list index type rfl
    have hvalue : list.isTypeReference = false :=
      (h.child (List.mem_cons_self ..)).here.formed.isTypeReference_eq_false hname
    have hlist : ∀ b, list.Answers b → b.toValue.Inhabits (.list type) :=
      fun b hb => htype ▸ hb hvalue
    refine .bind ihl.given fun b => ?_
    refine .bind (.lift fun hb => Value.toList_sound (hlist b hb.2)) fun items => ?_
    refine .bind (.lift fun hitems => Value.element_sound hitems.2 hbounds x) fun v => ?_
    exact .pure fun hv _ => hv.2

/-- Evaluating a tree of sound nodes ends in an answer of its type or in a failure that types do not rule
out. -/
theorem answer_ends {e : Expr σ} (h : e.Everywhere (Sound I bindings)) :
    Ends I True (e.answer bindings) e.Answers EvalError.IsDynamic :=
  answer_steady (fun _ => EvalError.IsForeign.isDynamic) (h.mono fun _ => Sound.steady)

end Expr

end HostExpr
