-- SUMMARY: Evaluation role by role, and its agreement with the views of one answer.
import HostExpr.Proofs.Expr.Modes
import HostExpr.Proofs.Expr.Nodes

/-!
# Evaluation role by role

A node can be evaluated in a role of its own: as a value, as a number, as a truth value or as a text. The
roles call one another, at the parts of a node and at the node itself: as a value, arithmetic is what it
is as a number and logic what it is as a truth value, and any other node is a number or a truth value as
its value is. Main result: the roles are the views of one answer (`roles_eq_views`), so an answer says
what an expression comes to in every role.
-/

namespace HostExpr.Expr

variable {σ : Type}

/-! ## The roles -/

mutual

/-- The value of an expression. -/
def asValue (bindings : Names Value) : Expr σ → EvalM σ Value
  | bool b => return .bool b
  | number x kind => return .number (.ofDouble kind x)
  | string s => return .string s
  | enum v => return .enum v
  | e@(logicalUnary _ _) | e@(logical _ _ _) | e@(comparison _ _ _) => .bool <$> asBool bindings e
  | e@(arithmeticUnary _ _ _) | e@(arithmetic _ _ _ _) | e@(conditional _ _ _) =>
    Value.ofDouble e.type <$> asNumber bindings e
  | var name _ =>
    match bindings.find? name with
    | some v => return v
    | none => throw (.unboundVariable name)
  | typeName _ _ => return .null
  | castTarget type => throw (.incompleteCast type.text)
  | convert type operand => do (← asValue bindings operand).castTo type
  | call callee args => do
    let values ← asArguments bindings args callee.params
    HostM.callFor callee.name (callee.call values)
  | property object member =>
    if member.isStatic then HostM.callFor member.name (member.read none)
    else do
      let target ← asValue bindings object
      HostM.callFor member.name (member.read (some target))
  | method object callee args => do
    let receiver ← asValue bindings object
    let values ← asArguments bindings args callee.argumentParams
    callee.callOn receiver values
  | element list index _ => do
    let x ← asNumber bindings index
    let items ← (← asValue bindings list).toList
    Value.element items x
-- A node may be handed on to another of its roles; that role is then the one that takes it apart.
termination_by e => (sizeOf e, 1)
decreasing_by all_goals subst_vars; grind [isArithmetic, isLogic]

/-- The number that an expression comes to. -/
def asNumber (bindings : Names Value) : Expr σ → EvalM σ Float
  | number x _ => return x
  | arithmeticUnary op operand _ => do
    let x ← asNumber bindings operand
    match op.applyUnary? with
    | some f => return f x
    | none => throw (.missingOperand op.symbol.text)
  | arithmetic op left right _ => do
    let x ← asNumber bindings left
    let y ← asNumber bindings right
    return op.apply x y
  | conditional condition left right => do
    if ← asBool bindings condition then asNumber bindings left else asNumber bindings right
  | e@(bool _) | e@(string _) | e@(enum _) | e@(logicalUnary _ _) | e@(logical _ _ _)
  | e@(comparison _ _ _) | e@(var _ _) | e@(typeName _ _) | e@(castTarget _) | e@(convert _ _)
  | e@(call _ _) | e@(property _ _) | e@(method _ _ _) | e@(element _ _ _) => do
    (← asValue bindings e).toDouble
termination_by e => (sizeOf e, if e.isArithmetic then 0 else 2)
decreasing_by all_goals subst_vars; grind [isArithmetic, isLogic]

/-- The truth value that an expression comes to. -/
def asBool (bindings : Names Value) : Expr σ → EvalM σ Bool
  | bool b => return b
  | logicalUnary op operand => do
    let b ← asBool bindings operand
    return if op = .not then !b else b
  | logical op left right => do
    let b ← asBool bindings left
    match op, b with
    | .not, _ => return !b
    | .and, true | .or, false => asBool bindings right
    | _, _ => return b
  | comparison op left right => do
    let x ← asNumber bindings left
    let y ← asNumber bindings right
    return op.holds x y
  | e@(number _ _) | e@(string _) | e@(enum _) | e@(arithmeticUnary _ _ _)
  | e@(arithmetic _ _ _ _) | e@(conditional _ _ _) | e@(var _ _) | e@(typeName _ _)
  | e@(castTarget _) | e@(convert _ _) | e@(call _ _) | e@(property _ _) | e@(method _ _ _)
  | e@(element _ _ _) => do
    (← asValue bindings e).toBool
termination_by e => (sizeOf e, if e.isLogic then 0 else 2)
decreasing_by all_goals subst_vars; grind [isArithmetic, isLogic]

/-- The value of an argument for a parameter. If both are numeric, the argument is evaluated as a number
and brought to the type of the parameter. -/
def asArgument (bindings : Names Value) (param : Ty) (e : Expr σ) : EvalM σ Value :=
  if param.isNumeric && e.isNumeric then Value.ofDouble param <$> asNumber bindings e
  else asValue bindings e
termination_by (sizeOf e, 3)
decreasing_by all_goals grind

/-- The values of arguments for the given parameters, from left to right. What has no partner is left
out. -/
def asArguments (bindings : Names Value) : List (Expr σ) → List Ty → EvalM σ (List Value)
  | e :: es, param :: params => do
    let v ← asArgument bindings param e
    let vs ← asArguments bindings es params
    return v :: vs
  | _, _ => return []
termination_by es => (sizeOf es, 0)
decreasing_by all_goals grind

end

/-- The text that an expression comes to. -/
def asText (bindings : Names Value) : Expr σ → EvalM σ String
  | string s => return s
  | e => do (← e.asValue bindings).toText

/-! ## The roles in terms of each other -/

variable {bindings : Names Value} {e : Expr σ}

theorem isLogic_of_isArithmetic (h : e.isArithmetic) : e.isLogic = false := by
  cases e with
  | number | arithmeticUnary | arithmetic | conditional => rfl
  | _ => cases h

theorem asValue_of_isArithmetic (h : e.isArithmetic) :
    e.asValue bindings = Value.ofDouble e.type <$> e.asNumber bindings := by
  cases e with
  | number => simp only [asValue, asNumber]; rfl
  | arithmeticUnary | arithmetic | conditional => rw [asValue]
  | _ => cases h

theorem asValue_of_isLogic (h : e.isLogic) :
    e.asValue bindings = .bool <$> e.asBool bindings := by
  cases e with
  | bool => simp only [asValue, asBool]; rfl
  | logicalUnary | logical | comparison => rw [asValue]
  | _ => cases h

theorem asNumber_of_not_isArithmetic (h : e.isArithmetic = false) :
    e.asNumber bindings = (do (← e.asValue bindings).toDouble) := by
  cases e with
  | number | arithmeticUnary | arithmetic | conditional => cases h
  | _ => rw [asNumber]

theorem asBool_of_not_isLogic (h : e.isLogic = false) :
    e.asBool bindings = (do (← e.asValue bindings).toBool) := by
  cases e with
  | bool | logicalUnary | logical | comparison => cases h
  | _ => rw [asBool]

/-! ## The roles are the views -/

/-- In every role, the expression comes to what its answer is in that view. -/
structure Agrees (bindings : Names Value) (e : Expr σ) : Prop where
  value : e.asValue bindings = e.evaluate bindings
  number : e.asNumber bindings = e.evaluateNumber bindings
  bool : e.asBool bindings = e.evaluateBool bindings

namespace Agrees

/-- Arithmetic agrees if it answers with what it is as a number. -/
theorem of_isArithmetic (h : e.isArithmetic)
    (hanswer : e.answer bindings = (.real · e.type) <$> e.asNumber bindings) :
    e.Agrees bindings := by
  have hlogic := isLogic_of_isArithmetic h
  have hnumber : e.asNumber bindings = e.evaluateNumber bindings := by
    rw [evaluateNumber, hanswer, bind_map_left]
    exact (bind_pure _).symm
  have hvalue : e.asValue bindings = e.evaluate bindings := by
    rw [asValue_of_isArithmetic h, hnumber, evaluate_of_isArithmetic h]
  refine ⟨hvalue, hnumber, ?_⟩
  rw [asBool_of_not_isLogic hlogic, hvalue, evaluateBool_of_not_isLogic hlogic]

/-- Logic agrees if it answers with what it is as a truth value. -/
theorem of_isLogic (h : e.isLogic) (hanswer : e.answer bindings = .truth <$> e.asBool bindings) :
    e.Agrees bindings := by
  have harithmetic : e.isArithmetic = false := Bool.eq_false_iff.2 fun harithmetic =>
    Bool.eq_false_iff.1 (isLogic_of_isArithmetic harithmetic) h
  have hbool : e.asBool bindings = e.evaluateBool bindings := by
    rw [evaluateBool, hanswer, bind_map_left]
    exact (bind_pure _).symm
  have hvalue : e.asValue bindings = e.evaluate bindings := by
    rw [asValue_of_isLogic h, hbool, evaluate_of_isLogic h]
  refine ⟨hvalue, ?_, hbool⟩
  rw [asNumber_of_not_isArithmetic harithmetic, hvalue, evaluateNumber_of_not_isArithmetic harithmetic]

/-- Every other node agrees if it answers with what it is as a value. -/
theorem of_not (harithmetic : e.isArithmetic = false) (hlogic : e.isLogic = false)
    (hanswer : e.answer bindings = .value <$> e.asValue bindings) : e.Agrees bindings := by
  have hvalue : e.asValue bindings = e.evaluate bindings := by
    rw [evaluate, hanswer, bind_map_left]
    exact (bind_pure _).symm
  refine ⟨hvalue, ?_, ?_⟩
  · rw [asNumber_of_not_isArithmetic harithmetic, hvalue,
      evaluateNumber_of_not_isArithmetic harithmetic]
  · rw [asBool_of_not_isLogic hlogic, hvalue, evaluateBool_of_not_isLogic hlogic]

theorem argument (h : e.Agrees bindings) (param : Ty) :
    e.asArgument bindings param = e.evaluateArgument bindings param := by
  rw [asArgument, evaluateArgument_eq, h.number, h.value]

theorem arguments {args : List (Expr σ)} (h : ∀ arg ∈ args, arg.Agrees bindings) (params : List Ty) :
    asArguments bindings args params = Expr.arguments bindings args params := by
  induction args generalizing params with
  | nil => simp [asArguments, arguments_nil]
  | cons arg args ih =>
    obtain ⟨harg, hargs⟩ := List.forall_mem_cons.1 h
    cases params with
    | nil => simp [asArguments, arguments_nil_right]
    | cons param params => rw [asArguments, arguments_cons, harg.argument, ih hargs]

end Agrees

/-- By induction on the tree: each node answers with what it is in the role that takes it apart, as its
parts agree. -/
theorem agrees (bindings : Names Value) (e : Expr σ) : e.Agrees bindings := by
  induction e with
  | bool b =>
    refine .of_isLogic rfl ?_
    rw [asBool]
    rfl
  | number x kind =>
    refine .of_isArithmetic rfl ?_
    rw [asNumber]
    rfl
  | string | enum | typeName | castTarget =>
    refine .of_not rfl rfl ?_
    rw [asValue]
    rfl
  | var name type =>
    refine .of_not rfl rfl ?_
    rw [asValue, answer]
    cases bindings.find? name <;> rfl
  | logicalUnary op operand ih =>
    refine .of_isLogic rfl ?_
    rw [answer_logicalUnary, asBool, ih.bool]
    simp only [map_bind, map_pure]
  | logical op left right ihl ihr =>
    refine .of_isLogic rfl ?_
    rw [answer_logical, asBool, ihl.bool, ihr.bool, map_bind]
    refine bind_congr fun b => ?_
    cases op <;> cases b <;> simp [LogicalOp.needsRight]
  | comparison op left right ihl ihr =>
    refine .of_isLogic rfl ?_
    rw [answer_comparison, asBool, ihl.number, ihr.number]
    simp only [map_bind, map_pure]
  | arithmeticUnary op operand type ih =>
    refine .of_isArithmetic rfl ?_
    rw [answer_arithmeticUnary, asNumber, ih.number, map_bind]
    refine bind_congr fun x => ?_
    cases op.applyUnary? <;> rfl
  | arithmetic op left right type ihl ihr =>
    refine .of_isArithmetic rfl ?_
    rw [answer_arithmetic, asNumber, ihl.number, ihr.number]
    simp only [map_bind, map_pure]
    rfl
  | conditional condition left right ihc ihl ihr =>
    refine .of_isArithmetic rfl ?_
    rw [answer_conditional, asNumber, ihc.bool, ihl.number, ihr.number, map_bind]
    refine bind_congr fun b => ?_
    cases b <;> simp [Expr.type]
  | convert type operand ih =>
    refine .of_not rfl rfl ?_
    rw [answer_convert, asValue, ih.value]
    simp only [map_bind, bind_pure_comp]
  | call callee args ih =>
    refine .of_not rfl rfl ?_
    rw [answer, asValue, Agrees.arguments ih]
    simp only [map_bind, bind_pure_comp]
  | property object member ih =>
    refine .of_not rfl rfl ?_
    rw [answer_property, asValue, ih.value]
    split <;> simp only [map_bind, bind_pure_comp]
  | method object callee args iho ih =>
    refine .of_not rfl rfl ?_
    rw [answer_method, asValue, iho.value, Agrees.arguments ih]
    simp only [map_bind, bind_pure_comp]
  | element list index type ihl ihi =>
    refine .of_not rfl rfl ?_
    rw [answer_element, asValue, ihl.value, ihi.number]
    simp only [map_bind, bind_pure_comp]

/-- In every role, an expression and the arguments of a call come to the views of their answers: the
same result, the same failure, the same calls of the host. -/
theorem roles_eq_views (bindings : Names Value) (e : Expr σ) :
    e.asValue bindings = e.evaluate bindings ∧
    e.asNumber bindings = e.evaluateNumber bindings ∧
    e.asBool bindings = e.evaluateBool bindings ∧
    e.asText bindings = e.evaluateText bindings ∧
    (∀ param, e.asArgument bindings param = e.evaluateArgument bindings param) ∧
    ∀ (args : List (Expr σ)) (params : List Ty),
      asArguments bindings args params = arguments bindings args params := by
  have h := agrees bindings e
  refine ⟨h.value, h.number, h.bool, ?_, h.argument,
    fun args => Agrees.arguments fun arg _ => agrees bindings arg⟩
  rw [evaluateText_eq, ← h.value]
  cases e with
  | string s => simp only [asText, asValue]; rfl
  | _ => rw [asText]; nofun

end HostExpr.Expr
