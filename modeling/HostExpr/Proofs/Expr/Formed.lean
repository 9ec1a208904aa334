-- SUMMARY: Well-formed trees, whose evaluation never misses a part.
import HostExpr.Proofs.Expr.Ends
import HostExpr.Proofs.Expr.Nodes

/-!
# Well-formed trees

`Expr.Formed` is what makes a single node of a tree well formed: every operand can play its role, the
types fit together, and nothing is missing. A tree of such nodes can fail in many ways, but not for the
lack of an operand.
-/

namespace HostExpr

variable {σ : Type}

/-- The node is well formed: what it needs is there and plays its role, and its type fits. -/
def Expr.Formed : Expr σ → Prop
  | bool _ | number _ _ | string _ | enum _ | var _ _ | typeName _ _ | convert _ _ => True
  | castTarget _ => False
  | logicalUnary op operand => op = .not ∧ operand.isBoolean
  | logical op left right => op ≠ .not ∧ left.isBoolean ∧ right.isBoolean
  | arithmeticUnary op operand type =>
    (op = .sub ∨ op = .complement) ∧ operand.isNumeric ∧ type = operand.type
  | arithmetic op left right type =>
    op ≠ .complement ∧ left.isNumeric ∧ right.isNumeric ∧ type = left.type.promote right.type
  | comparison _ left right => left.isNumeric ∧ right.isNumeric
  | conditional condition left right => condition.isBoolean ∧ left.isNumeric ∧ right.isNumeric
  | call callee args => args.length = callee.arity
  | property object _ => object.type ≠ .void
  | method object callee _ =>
    object.type ≠ .void ∧
      (callee.isGeneric = false ∨ callee.typeArgs.length = callee.genericParams.length)
  | element list index type => list.type = .list type ∧ index.isNumeric

/-- A well-formed node has a value, unless it is the name of a type. -/
theorem Expr.Formed.isTypeReference_eq_false {e : Expr σ} (h : e.Formed)
    (hname : ∀ name type, e ≠ typeName name type) : e.isTypeReference = false := by
  cases e with
  | typeName name type => exact absurd rfl (hname name type)
  | castTarget type => exact absurd h id
  | _ => rfl

/-! ## Failures for the lack of a part -/

/-- The failure is that of a tree in which an operand is missing. -/
def EvalError.IsMissingPart : EvalError → Prop
  | missingOperand _ | incompleteCast _ => True
  | _ => False

/-- An outcome that is no failure for the lack of a part. -/
abbrev EvalM.OutcomeComplete {α : Type} (result : Except EvalError α) : Prop :=
  EvalM.Outcome (fun _ => True) (fun e => ¬ e.IsMissingPart) result

namespace Answer

open EvalM

theorem toNumber_complete (a : Answer) : OutcomeComplete a.toNumber := by
  cases a with
  | real x type => trivial
  | truth b => exact id
  | value v => cases v <;> first | trivial | exact id

theorem toBool_complete (a : Answer) : OutcomeComplete a.toBool := by
  cases a with
  | real x type => cases type <;> exact id
  | truth b => trivial
  | value v => cases v <;> first | trivial | exact id

theorem toText_complete (a : Answer) : OutcomeComplete a.toText := by
  cases a with
  | real x type => cases type <;> exact id
  | truth b => exact id
  | value v => cases v <;> first | trivial | exact id

theorem toArgument_complete (a : Answer) (isNumeric : Bool) (param : Ty) :
    OutcomeComplete (a.toArgument isNumeric param) := by
  unfold toArgument
  split
  · have hnumber := a.toNumber_complete
    revert hnumber
    cases a.toNumber <;> exact id
  · trivial

end Answer

theorem Value.toList_complete (v : Value) : EvalM.OutcomeComplete v.toList := by
  cases v <;> first | trivial | exact id

theorem Value.element_complete (items : List Value) (index : Float) :
    EvalM.OutcomeComplete (Value.element items index) := by
  unfold Value.element
  split
  · trivial
  · exact id

theorem Value.castTo_complete (v : Value) (type : Ty) : EvalM.OutcomeComplete (v.castTo type) := by
  unfold Value.castTo
  cases convert v type <;> first | trivial | exact id

/-! ## Evaluation -/

namespace Expr

open EvalM

variable {I : σ → Prop} {E : EvalError → Prop} {bindings : Names Value}

/-- Arguments end as their expressions do and as the conversions for the parameters do. -/
theorem arguments_ends {Q : Expr σ → Answer → Prop} {args : List (Expr σ)}
    (hargs : ∀ arg ∈ args, Ends I True (arg.answer bindings) (Q arg) E)
    (hconvert : ∀ arg ∈ args, ∀ a, Q arg a → ∀ param,
      Outcome (fun _ => True) E (a.toArgument arg.isNumeric param)) (params : List Ty) :
    Ends I True (arguments bindings args params) (fun _ => True) E := by
  induction args generalizing params with
  | nil => exact .pure fun _ => trivial
  | cons arg args ih =>
    cases params with
    | nil => exact .pure fun _ => trivial
    | cons param params =>
      obtain ⟨harg, hargs⟩ := List.forall_mem_cons.1 hargs
      obtain ⟨hfirst, hconvert⟩ := List.forall_mem_cons.1 hconvert
      rw [arguments]
      refine .bind harg fun a => .bind (.lift fun ⟨_, ha⟩ => hfirst a ha param) fun v => ?_
      exact .bind (ih hargs hconvert params).given fun vs => .pure fun _ => trivial

/-- Actions of the host fail with failures of the host. -/
theorem callFor_complete {callee : String} {action : HostM σ Value} {P : Prop} :
    Ends (fun _ : σ => True) P (HostM.callFor callee action) (fun _ => True)
      (fun error => ¬ error.IsMissingPart) :=
  .callFor (fun _ _ => ⟨trivial, fun _ _ _ => trivial⟩) fun _ => id

/-- The evaluation of a well-formed tree never misses a part. -/
theorem answer_complete {e : Expr σ} (h : e.Everywhere Formed) :
    Ends (fun _ : σ => True) True (e.answer bindings) (fun _ => True)
      (fun error => ¬ error.IsMissingPart) := by
  induction e with
  | bool | number | string | enum | typeName =>
    rw [answer]
    exact .pure fun _ => trivial
  | castTarget type => exact absurd h.here id
  | var name type =>
    rw [answer]
    cases bindings.find? name with
    | none => exact .throw fun _ => id
    | some v => exact .pure fun _ => trivial
  | logicalUnary op operand ih =>
    have ih := ih (h.first rfl)
    rw [answer]
    refine .bind ih fun a => .bind (.lift fun _ => a.toBool_complete) fun b => ?_
    exact .pure fun _ => trivial
  | logical op left right ihl ihr =>
    have ihl := ihl (h.first rfl)
    have ihr := ihr (h.second rfl)
    rw [answer]
    refine .bind ihl fun a => .bind (.lift fun _ => a.toBool_complete) fun b => ?_
    -- The last case alone evaluates the right operand.
    split
    case h_4 =>
      refine .bind ihr.given fun a => .bind (.lift fun _ => a.toBool_complete) fun b => ?_
      exact .pure fun _ => trivial
    all_goals exact .pure fun _ => trivial
  | arithmeticUnary op operand type ih =>
    have ih := ih (h.first rfl)
    obtain ⟨hop, -, -⟩ := h.here
    rw [answer]
    refine .bind ih fun a => .bind (.lift fun _ => a.toNumber_complete) fun x => ?_
    rcases hop with rfl | rfl <;> exact .pure fun _ => trivial
  | arithmetic op left right type ihl ihr | comparison op left right ihl ihr =>
    have ihl := ihl (h.first rfl)
    have ihr := ihr (h.second rfl)
    rw [answer]
    refine .bind ihl fun a => .bind (.lift fun _ => a.toNumber_complete) fun x => ?_
    refine .bind ihr.given fun a => .bind (.lift fun _ => a.toNumber_complete) fun y => ?_
    exact .pure fun _ => trivial
  | conditional condition left right ihc ihl ihr =>
    have ihc := ihc (h.first rfl)
    have ihl := ihl (h.second rfl)
    have ihr := ihr (h.third rfl)
    rw [answer]
    refine .bind ihc fun a => .bind (.lift fun _ => a.toBool_complete) fun b => .ite ?_ ?_
    · intro _
      refine .bind ihl.given fun a => .bind (.lift fun _ => a.toNumber_complete) fun x => ?_
      exact .pure fun _ => trivial
    · intro _
      refine .bind ihr.given fun a => .bind (.lift fun _ => a.toNumber_complete) fun x => ?_
      exact .pure fun _ => trivial
  | convert type operand ih =>
    have ih := ih (h.first rfl)
    rw [answer]
    refine .bind ih fun a => .bind (.lift fun _ => Value.castTo_complete _ _) fun v => ?_
    exact .pure fun _ => trivial
  | call callee args ih =>
    have ih := fun arg harg => ih arg harg (h.child harg)
    rw [answer]
    refine .bind (arguments_ends ih (fun _ _ a _ _ => a.toArgument_complete _ _) _) fun vs => ?_
    exact .bind callFor_complete fun v => .pure fun _ => trivial
  | property object member ih =>
    have ih := ih (h.first rfl)
    rw [answer]
    refine .ite ?_ ?_
    · intro _
      exact .bind callFor_complete fun v => .pure fun _ => trivial
    · intro _
      refine .bind ih fun a => ?_
      exact .bind callFor_complete fun v => .pure fun _ => trivial
  | method object callee args iho ih =>
    have iho := iho (h.child (List.mem_cons_self ..))
    have ih := fun arg harg => ih arg harg (h.child (List.mem_cons_of_mem _ harg))
    rw [answer]
    refine .bind iho fun a => ?_
    refine .bind (arguments_ends ih (fun _ _ a _ _ => a.toArgument_complete _ _) _).given fun vs => ?_
    exact .bind callFor_complete fun v => .pure fun _ => trivial
  | element list index type ihl ihi =>
    have ihl := ihl (h.first rfl)
    have ihi := ihi (h.second rfl)
    rw [answer]
    refine .bind ihi fun a => .bind (.lift fun _ => a.toNumber_complete) fun x => ?_
    refine .bind ihl.given fun a => .bind (.lift fun _ => Value.toList_complete _) fun items => ?_
    refine .bind (.lift fun _ => Value.element_complete _ _) fun v => ?_
    exact .pure fun _ => trivial

end Expr

end HostExpr
