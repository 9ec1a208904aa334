-- SUMMARY: The four ways to evaluate, in terms of each other.
import HostExpr.Proofs.Expr.Ends

/-!
# Ways to evaluate

Evaluation as a value, a number, a truth value and a text are views of one answer. Seen from outside they
call each other. A node evaluates its parts in the ways that it needs (`answer_arithmetic` and the like).
Arithmetic is evaluated as a number and logic as a truth value, whichever way is asked for; every other
node is evaluated as a value, which is then looked at in the way asked for.
-/

namespace HostExpr

variable {σ : Type} {bindings : Names Value}

/-- A left operand with the truth value leaves the operation to the right one. -/
def LogicalOp.needsRight : LogicalOp → Bool → Bool
  | not, _ => false
  | and, b => b
  | or, b => !b

/-- The target and the arguments that a method receives. -/
def Method.passes (m : Method σ) (receiver : Value) (args : List Value) : Option Value × List Value :=
  if m.isExtension then (none, receiver :: args)
  else if m.isStatic then (none, args)
  else (some receiver, args)

/-- A method is run on what it receives. -/
theorem Method.callOn_eq (m : Method σ) (receiver : Value) (args : List Value) :
    m.callOn receiver args = HostM.callFor m.name
      (m.body (m.passes receiver args).1 (m.passes receiver args).2 m.typeArgs) := by
  unfold callOn passes
  split
  · rfl
  · split <;> rfl

namespace Expr

/-- The value of an expression as an argument for a parameter of a type. -/
def evaluateArgument (bindings : Names Value) (param : Ty) (e : Expr σ) : EvalM σ Value := do
  (← e.answer bindings).toArgument e.isNumeric param

/-! ## Nodes and their parts -/

section

variable {left right operand condition object list index : Expr σ} {type : Ty}

theorem answer_logicalUnary {op : LogicalOp} :
    (logicalUnary op operand).answer bindings = do
      let b ← operand.evaluateBool bindings
      return .truth (if op = .not then !b else b) := by
  simp only [evaluateBool, bind_assoc]
  rfl

/-- The right operand is evaluated only if the left one does not decide. -/
theorem answer_logical {op : LogicalOp} :
    (logical op left right).answer bindings = do
      let b ← left.evaluateBool bindings
      if op.needsRight b then return .truth (← right.evaluateBool bindings)
      else return .truth (if op = .not then !b else b) := by
  simp only [evaluateBool, bind_assoc]
  refine bind_congr fun a => bind_congr fun b => ?_
  cases op <;> cases b <;> rfl

theorem answer_arithmeticUnary {op : ArithmeticOp} :
    (arithmeticUnary op operand type).answer bindings =
      operand.evaluateNumber bindings >>= fun x =>
        match op.applyUnary? with
        | some f => return .real (f x) type
        | none => throw (.missingOperand op.symbol.text) := by
  simp only [evaluateNumber, bind_assoc]
  rfl

theorem answer_arithmetic {op : ArithmeticOp} :
    (arithmetic op left right type).answer bindings = do
      let x ← left.evaluateNumber bindings
      let y ← right.evaluateNumber bindings
      return .real (op.apply x y) type := by
  simp only [evaluateNumber, bind_assoc]
  rfl

theorem answer_comparison {op : ComparisonOp} :
    (comparison op left right).answer bindings = do
      let x ← left.evaluateNumber bindings
      let y ← right.evaluateNumber bindings
      return .truth (op.holds x y) := by
  simp only [evaluateNumber, bind_assoc]
  rfl

/-- One branch is evaluated. -/
theorem answer_conditional :
    (conditional condition left right).answer bindings = do
      if ← condition.evaluateBool bindings then
        return .real (← left.evaluateNumber bindings) .double
      else
        return .real (← right.evaluateNumber bindings) .double := by
  simp only [evaluateBool, evaluateNumber, bind_assoc]
  rfl

theorem answer_convert :
    (convert type operand).answer bindings = do
      let v ← operand.evaluate bindings
      return .value (← v.castTo type) := by
  simp only [evaluate, bind_assoc, pure_bind]
  rfl

/-- What stands before the point is evaluated only for a member of an instance. -/
theorem answer_property {member : Member σ} :
    (property object member).answer bindings =
      if member.isStatic then do
        return .value (← HostM.callFor member.name (member.read none))
      else do
        let target ← object.evaluate bindings
        return .value (← HostM.callFor member.name (member.read (some target))) := by
  simp only [evaluate, bind_assoc, pure_bind]
  rfl

theorem answer_method {callee : Method σ} {args : List (Expr σ)} :
    (method object callee args).answer bindings = do
      let receiver ← object.evaluate bindings
      let values ← arguments bindings args callee.argumentParams
      return .value (← callee.callOn receiver values) := by
  simp only [evaluate, bind_assoc, pure_bind]
  rfl

/-- The index is evaluated before the list. -/
theorem answer_element :
    (element list index type).answer bindings = do
      let x ← index.evaluateNumber bindings
      let items ← list.evaluate bindings
      return .value (← Value.element (← items.toList) x) := by
  simp only [evaluate, evaluateNumber, bind_assoc, pure_bind]
  rfl

theorem arguments_nil {params : List Ty} :
    arguments bindings ([] : List (Expr σ)) params = return [] := by
  cases params <;> rfl

theorem arguments_nil_right {args : List (Expr σ)} :
    arguments bindings args [] = return [] := by
  cases args <;> rfl

theorem arguments_cons {arg : Expr σ} {args : List (Expr σ)} {param : Ty} {params : List Ty} :
    arguments bindings (arg :: args) (param :: params) = do
      let v ← arg.evaluateArgument bindings param
      let vs ← arguments bindings args params
      return v :: vs := by
  simp only [arguments, evaluateArgument, bind_assoc]

end

/-! ## The ways in terms of each other -/

/-- The node is evaluated as a number, whichever way is asked for. -/
def isArithmetic : Expr σ → Bool
  | number _ _ | arithmeticUnary _ _ _ | arithmetic _ _ _ _ | conditional _ _ _ => true
  | _ => false

/-- The node is evaluated as a truth value, whichever way is asked for. -/
def isLogic : Expr σ → Bool
  | bool _ | logicalUnary _ _ | logical _ _ _ | comparison _ _ _ => true
  | _ => false

variable {e : Expr σ}

/-- Arithmetic comes to a number for the type of the node. -/
theorem answer_of_isArithmetic (h : e.isArithmetic) :
    e.answer bindings = (.real · e.type) <$> e.evaluateNumber bindings := by
  cases e with
  | number value kind => rfl
  | arithmeticUnary op operand type =>
    simp only [evaluateNumber, answer_arithmeticUnary, bind_assoc, map_bind]
    refine bind_congr fun a => bind_congr fun x => ?_
    cases op.applyUnary? <;> rfl
  | arithmetic op left right type =>
    simp only [evaluateNumber, answer_arithmetic, bind_assoc, map_bind]
    rfl
  | conditional condition left right =>
    simp only [evaluateNumber, answer_conditional, bind_assoc, map_bind]
    refine bind_congr fun b => ?_
    cases b <;> simp only [Bool.false_eq_true, if_false, if_true, bind_assoc] <;> rfl
  | _ => cases h

/-- Logic comes to a truth value. -/
theorem answer_of_isLogic (h : e.isLogic) :
    e.answer bindings = .truth <$> e.evaluateBool bindings := by
  cases e with
  | bool b => rfl
  | logicalUnary op operand =>
    simp only [evaluateBool, answer_logicalUnary, bind_assoc, map_bind]
    rfl
  | logical op left right =>
    simp only [evaluateBool, answer_logical, bind_assoc, map_bind]
    refine bind_congr fun a => bind_congr fun b => ?_
    cases op.needsRight b
    · rfl
    · simp only [if_true, bind_assoc]
      rfl
  | comparison op left right =>
    simp only [evaluateBool, answer_comparison, bind_assoc, map_bind]
    rfl
  | _ => cases h

/-- Every other node comes to a value. -/
theorem answer_of_not (harithmetic : e.isArithmetic = false) (hlogic : e.isLogic = false) :
    e.answer bindings = .value <$> e.evaluate bindings := by
  cases e with
  | number | arithmeticUnary | arithmetic | conditional => cases harithmetic
  | bool | logicalUnary | logical | comparison => cases hlogic
  | string | enum | typeName | castTarget => rfl
  | var name type =>
    simp only [evaluate, answer]
    cases bindings.find? name <;> rfl
  | convert type operand =>
    simp only [evaluate, answer_convert, bind_assoc, map_bind]
    rfl
  | call callee args =>
    simp only [evaluate, answer, bind_assoc, map_bind]
    rfl
  | property object member =>
    simp only [evaluate, answer_property]
    split
    · simp only [bind_assoc, map_bind]
      rfl
    · simp only [bind_assoc, map_bind]
      rfl
  | method object callee args =>
    simp only [evaluate, answer_method, bind_assoc, map_bind]
    rfl
  | element list index type =>
    simp only [evaluate, answer_element, bind_assoc, map_bind]
    rfl

/-- As a value, arithmetic is its number brought to the type of the node. -/
theorem evaluate_of_isArithmetic (h : e.isArithmetic) :
    e.evaluate bindings = Value.ofDouble e.type <$> e.evaluateNumber bindings := by
  rw [evaluate, answer_of_isArithmetic h]
  simp only [map_eq_pure_bind, bind_assoc, pure_bind]
  rfl

/-- As a value, logic is its truth value. -/
theorem evaluate_of_isLogic (h : e.isLogic) :
    e.evaluate bindings = .bool <$> e.evaluateBool bindings := by
  rw [evaluate, answer_of_isLogic h]
  simp only [map_eq_pure_bind, bind_assoc, pure_bind]
  rfl

/-- Every other node is a number as its value is. -/
theorem evaluateNumber_of_not_isArithmetic (h : e.isArithmetic = false) :
    e.evaluateNumber bindings = (do (← e.evaluate bindings).toDouble) := by
  cases hlogic : e.isLogic with
  | true =>
    rw [evaluateNumber, evaluate, answer_of_isLogic hlogic]
    simp only [map_eq_pure_bind, bind_assoc, pure_bind]
    rfl
  | false =>
    rw [evaluateNumber, evaluate, answer_of_not h hlogic]
    simp only [map_eq_pure_bind, bind_assoc, pure_bind]
    rfl

/-- Every other node is a truth value as its value is. -/
theorem evaluateBool_of_not_isLogic (h : e.isLogic = false) :
    e.evaluateBool bindings = (do (← e.evaluate bindings).toBool) := by
  cases harithmetic : e.isArithmetic with
  | true =>
    rw [evaluateBool, evaluate, answer_of_isArithmetic harithmetic]
    simp only [map_eq_pure_bind, bind_assoc, pure_bind]
    rfl
  | false =>
    rw [evaluateBool, evaluate, answer_of_not harithmetic h]
    simp only [map_eq_pure_bind, bind_assoc, pure_bind]
    rfl

/-- As an argument, an expression is evaluated as a number if it and the parameter are numeric. -/
theorem evaluateArgument_eq (e : Expr σ) (param : Ty) :
    e.evaluateArgument bindings param =
      if param.isNumeric && e.isNumeric then Value.ofDouble param <$> e.evaluateNumber bindings
      else e.evaluate bindings := by
  unfold evaluateArgument Answer.toArgument
  split
  · simp only [evaluateNumber, map_bind]
    refine bind_congr fun a => ?_
    cases a.toNumber <;> rfl
  · rfl

/-- An expression is a text as its value is. -/
theorem evaluateText_eq (e : Expr σ) :
    e.evaluateText bindings = (do (← e.evaluate bindings).toText) := by
  simp only [evaluateText, evaluate, Answer.toText, bind_assoc, pure_bind]

end Expr

end HostExpr
