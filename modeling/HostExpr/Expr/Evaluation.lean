-- SUMMARY: Evaluating an expression, with its host.
import HostExpr.Expr.Answer
import HostExpr.Expr.Operation
import HostExpr.Conversion
import HostExpr.Names

/-!
# Evaluation

One recursion over the tree computes the answer of an expression (`Expr.answer`); the four ways to
evaluate are the four views of that answer, so they call the host in the same way and fail alike.

Operands go from left to right, the receiver of a method before its arguments, but an index before
its list. `&&` and `||` leave out a right operand that cannot matter, a conditional the branch that is
not taken, and a static member what stands before its point. The first failure ends the evaluation.
-/

namespace HostExpr

/-- An evaluation with a host in a state. A failure keeps the state that it arose in. -/
abbrev EvalM (σ α : Type) := ExceptT EvalError (StateM σ) α

/-- An action of the host on behalf of a member, method or function, whose failure is one of the
evaluation. -/
def HostM.callFor {σ α : Type} (callee : String) (action : HostM σ α) : EvalM σ α := fun host =>
  let (result, host) := action host
  (result.mapError (.hostFailure callee), host)

/-- The element of a list at a position given by a number, whose fraction is dropped. -/
def Value.element (items : List Value) (index : Float) : Except EvalError Value :=
  match (Floating.toIndex index items.length).bind (items[·]?) with
  | some v => .ok v
  | none => .error (.indexOutOfBounds (Floating.toWord index).toInt items.length)

/-- The value as one of a type, for a cast. -/
def Value.castTo (v : Value) (type : Ty) : Except EvalError Value :=
  (convert v type).mapError (.conversionFailed v.describe type.text)

namespace Method

variable {σ : Type}

/-- The parameters that are for the arguments in parentheses. -/
def argumentParams (m : Method σ) : List Ty := if m.isExtension then m.params.drop 1 else m.params

/-- Runs the method on the value it is called on and on the arguments in parentheses. -/
def callOn (m : Method σ) (receiver : Value) (args : List Value) : EvalM σ Value :=
  HostM.callFor m.name <|
    if m.isExtension then m.invoke none (receiver :: args)
    else if m.isStatic then m.invoke none args
    else m.invoke (some receiver) args

end Method

namespace Expr

variable {σ : Type}

mutual

/-- The answer of an expression. -/
def answer (bindings : Names Value) : Expr σ → EvalM σ Answer
  | bool b => return .truth b
  | number value kind => return .real value (.number kind)
  | string s => return .value (.string s)
  | enum v => return .value (.enum v)
  | logicalUnary op operand => do
    let b ← (← answer bindings operand).toBool
    return .truth (if op = .not then !b else b)
  | logical op left right => do
    let b ← (← answer bindings left).toBool
    match op, b with
    | .not, b => return .truth !b
    | .and, false => return .truth false
    | .or, true => return .truth true
    | _, _ => return .truth (← (← answer bindings right).toBool)
  | arithmeticUnary op operand type => do
    let x ← (← answer bindings operand).toNumber
    match op.applyUnary? with
    | some f => return .real (f x) type
    | none => throw (.missingOperand op.symbol.text)
  | arithmetic op left right type => do
    let x ← (← answer bindings left).toNumber
    let y ← (← answer bindings right).toNumber
    return .real (op.apply x y) type
  | comparison op left right => do
    let x ← (← answer bindings left).toNumber
    let y ← (← answer bindings right).toNumber
    return .truth (op.holds x y)
  | conditional condition left right => do
    if ← (← answer bindings condition).toBool then
      return .real (← (← answer bindings left).toNumber) .double
    else
      return .real (← (← answer bindings right).toNumber) .double
  | var name _ =>
    match bindings.find? name with
    | some v => return .value v
    | none => throw (.unboundVariable name)
  | typeName _ _ => return .value .null
  | castTarget type => throw (.incompleteCast type.text)
  | convert type operand => do
    return .value (← (← answer bindings operand).toValue.castTo type)
  | call callee args => do
    let values ← arguments bindings args callee.params
    return .value (← HostM.callFor callee.name (callee.call values))
  | property object member => do
    if member.isStatic then
      return .value (← HostM.callFor member.name (member.read none))
    else
      let target := (← answer bindings object).toValue
      return .value (← HostM.callFor member.name (member.read (some target)))
  | method object callee args => do
    let receiver := (← answer bindings object).toValue
    let values ← arguments bindings args callee.argumentParams
    return .value (← callee.callOn receiver values)
  | element list index _ => do
    let x ← (← answer bindings index).toNumber
    let items ← (← answer bindings list).toValue.toList
    return .value (← Value.element items x)

/-- The values of arguments for the given parameters. What has no partner is left out. -/
def arguments (bindings : Names Value) : List (Expr σ) → List Ty → EvalM σ (List Value)
  | e :: es, param :: params => do
    let v ← (← answer bindings e).toArgument e.isNumeric param
    return v :: (← arguments bindings es params)
  | _, _ => return []

end

/-! ## The four ways to evaluate -/

/-- The value of an expression. -/
def evaluate (bindings : Names Value) (e : Expr σ) : EvalM σ Value := do
  return (← e.answer bindings).toValue

/-- The number that an expression comes to. -/
def evaluateNumber (bindings : Names Value) (e : Expr σ) : EvalM σ Float := do
  (← e.answer bindings).toNumber

/-- The truth value that an expression comes to. -/
def evaluateBool (bindings : Names Value) (e : Expr σ) : EvalM σ Bool := do
  (← e.answer bindings).toBool

/-- The text that an expression comes to. -/
def evaluateText (bindings : Names Value) (e : Expr σ) : EvalM σ String := do
  (← e.answer bindings).toText

end Expr

end HostExpr
