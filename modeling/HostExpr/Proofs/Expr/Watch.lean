-- SUMMARY: Evaluation with a log of what is called on the host, and its erasure.
import HostExpr.Proofs.Expr.Modes
import HostExpr.Proofs.Expr.Nodes

/-!
# Watched evaluation

What an evaluation calls on its host is no part of the outcome. To speak of it, a tree is watched: every
closure of the host is replaced by one that runs the same action and adds an entry to a log, which is kept
beside the state of the host. Watched trees are evaluated by the same function, and without the log the
evaluation of a watched tree is that of the tree.
-/

namespace HostExpr

variable {σ α β : Type}

/-- What is called: a function, or a member or method of the type of the expression before the point. -/
inductive Callee where
  | function (name : String)
  | member (object : Ty) (name : String)
  | method (object : Ty) (name : String)

/-- One call on the host. -/
structure Entry where
  /-- The node that calls, as the way to it from the top of the tree. -/
  place : List Nat
  callee : Callee
  target : Option Value
  args : List Value
  typeArgs : List Ty
  /-- The type that the result is declared to have. -/
  declared : Ty
  result : Except String Value

/-- The state of a host, with the log of the calls on it. -/
structure Watched (σ : Type) where
  host : σ
  entries : List Entry

/-! ## Watched trees -/

/-- The action, with an entry about its result. -/
def HostM.watch (entry : Except String Value → Entry) (action : HostM σ Value) :
    HostM (Watched σ) Value := fun w =>
  let (result, host) := action w.host
  (result, ⟨host, w.entries ++ [entry result]⟩)

def HostFunction.watch (place : List Nat) (f : HostFunction σ) : HostFunction (Watched σ) where
  name := f.name
  params := f.params
  returns := f.returns
  call := fun args => (f.call args).watch (.mk place (.function f.name) none args [] f.returns)

def Member.watch (place : List Nat) (object : Ty) (m : Member σ) : Member (Watched σ) where
  name := m.name
  kind := m.kind
  type := m.type
  isStatic := m.isStatic
  read := fun target => (m.read target).watch (.mk place (.member object m.name) target [] [] m.type)

def Method.watch (place : List Nat) (object : Ty) (m : Method σ) : Method (Watched σ) where
  name := m.name
  params := m.params
  returns := m.returns
  isStatic := m.isStatic
  isExtension := m.isExtension
  genericParams := m.genericParams
  typeArgs := m.typeArgs
  body := fun target args typeArgs =>
    (m.body target args typeArgs).watch
      (.mk place (.method object m.name) target args typeArgs m.returns)

namespace Expr

mutual

/-- The tree at a place, with every closure of the host watched. -/
def watch (place : List Nat) : Expr σ → Expr (Watched σ)
  | bool b => bool b
  | number value kind => number value kind
  | string text => string text
  | enum value => enum value
  | logicalUnary op operand => logicalUnary op (operand.watch (place ++ [0]))
  | logical op left right => logical op (left.watch (place ++ [0])) (right.watch (place ++ [1]))
  | arithmeticUnary op operand type => arithmeticUnary op (operand.watch (place ++ [0])) type
  | arithmetic op left right type =>
    arithmetic op (left.watch (place ++ [0])) (right.watch (place ++ [1])) type
  | comparison op left right =>
    comparison op (left.watch (place ++ [0])) (right.watch (place ++ [1]))
  | conditional condition left right =>
    conditional (condition.watch (place ++ [0])) (left.watch (place ++ [1]))
      (right.watch (place ++ [2]))
  | var name type => var name type
  | typeName name type => typeName name type
  | castTarget type => castTarget type
  | convert type operand => convert type (operand.watch (place ++ [0]))
  | call callee args => call (callee.watch place) (watchAll place 0 args)
  | property object member =>
    property (object.watch (place ++ [0])) (member.watch place object.type)
  | method object callee args =>
    method (object.watch (place ++ [0])) (callee.watch place object.type) (watchAll place 1 args)
  | element list index type =>
    element (list.watch (place ++ [0])) (index.watch (place ++ [1])) type

/-- The trees below a place, from a position on. -/
def watchAll (place : List Nat) (position : Nat) : List (Expr σ) → List (Expr (Watched σ))
  | [] => []
  | e :: es => e.watch (place ++ [position]) :: watchAll place (position + 1) es

end

/-- What the evaluation of the tree calls on the host, in order. -/
def entries (e : Expr σ) (bindings : Names Value) (host : σ) : List Entry :=
  ((e.watch []).answer bindings ⟨host, []⟩).2.entries

/-! ## Watching keeps the tree -/

@[simp] theorem type_watch (e : Expr σ) (place : List Nat) : (e.watch place).type = e.type := by
  cases e <;> rfl

@[simp] theorem isTypeReference_watch (e : Expr σ) (place : List Nat) :
    (e.watch place).isTypeReference = e.isTypeReference := by
  cases e <;> rfl

@[simp] theorem isNumeric_watch (e : Expr σ) (place : List Nat) :
    (e.watch place).isNumeric = e.isNumeric := by
  simp [isNumeric]

@[simp] theorem isBoolean_watch (e : Expr σ) (place : List Nat) :
    (e.watch place).isBoolean = e.isBoolean := by
  simp [isBoolean]

theorem mem_watchAll {place : List Nat} {position : Nat} {es : List (Expr σ)}
    {node : Expr (Watched σ)} (h : node ∈ watchAll place position es) :
    ∃ e ∈ es, ∃ place', node = e.watch place' := by
  induction es generalizing position with
  | nil => cases h
  | cons e es ih =>
    rcases List.mem_cons.1 h with rfl | h
    · exact ⟨e, List.mem_cons_self .., _, rfl⟩
    · obtain ⟨e', he', place', rfl⟩ := ih h
      exact ⟨e', List.mem_cons_of_mem _ he', place', rfl⟩

theorem children_watch (e : Expr σ) (place : List Nat) :
    (e.watch place).children = watchAll place 0 e.children := by
  cases e <;> rfl

/-- The nodes of a watched tree are the nodes of the tree, watched. -/
theorem IsNode.of_watch {e : Expr σ} {place : List Nat} {node : Expr (Watched σ)}
    (h : (e.watch place).IsNode node) : ∃ node' place', e.IsNode node' ∧ node = node'.watch place' := by
  induction h with
  | root => exact ⟨e, place, .root, rfl⟩
  | child _ hmem ih =>
    obtain ⟨parent, place', hparent, rfl⟩ := ih
    rw [children_watch] at hmem
    obtain ⟨child, hchild, place'', rfl⟩ := mem_watchAll hmem
    exact ⟨child, place'', .child hparent hchild, rfl⟩

theorem Everywhere.watch {e : Expr σ} {P : Expr σ → Prop} {Q : Expr (Watched σ) → Prop}
    (h : e.Everywhere P) (hPQ : ∀ node place, P node → Q (node.watch place)) (place : List Nat) :
    (e.watch place).Everywhere Q := by
  intro node hnode
  obtain ⟨node', place', hnode', rfl⟩ := hnode.of_watch
  exact hPQ node' place' (h node' hnode')

end Expr

/-! ## The calls of an evaluation -/

/-- What is called once an evaluation has succeeded: nothing if it fails. -/
def EvalM.afterwards (m : EvalM σ α) (next : α → σ → List Entry) (host : σ) : List Entry :=
  match m host with
  | (.ok a, middle) => next a middle
  | (.error _, _) => []

section

variable {m : EvalM σ α} {next : α → σ → List Entry} {host host' : σ}

theorem EvalM.afterwards_ok {a : α} (h : m host = (.ok a, host')) :
    m.afterwards next host = next a host' := by
  rw [afterwards, h]

theorem EvalM.afterwards_error {e : EvalError} (h : m host = (.error e, host')) :
    m.afterwards next host = [] := by
  rw [afterwards, h]

end

namespace Expr

mutual

/-- The calls of the node at a place and of what is below it, in the order in which they are made. -/
def calls (bindings : Names Value) (place : List Nat) : Expr σ → σ → List Entry
  | bool _ | number _ _ | string _ | enum _ | var _ _ | typeName _ _ | castTarget _ => fun _ => []
  | logicalUnary _ operand | arithmeticUnary _ operand _ | convert _ operand =>
    operand.calls bindings (place ++ [0])
  | logical op left right => fun host =>
    left.calls bindings (place ++ [0]) host ++
      (left.evaluateBool bindings).afterwards
        (fun b => if op.needsRight b then right.calls bindings (place ++ [1]) else fun _ => []) host
  | arithmetic _ left right _ | comparison _ left right => fun host =>
    left.calls bindings (place ++ [0]) host ++
      (left.evaluateNumber bindings).afterwards (fun _ => right.calls bindings (place ++ [1])) host
  | conditional condition left right => fun host =>
    condition.calls bindings (place ++ [0]) host ++
      (condition.evaluateBool bindings).afterwards
        (fun b => if b then left.calls bindings (place ++ [1]) else right.calls bindings (place ++ [2]))
        host
  | call callee args => fun host =>
    callsAll bindings place 0 args callee.params host ++
      (arguments bindings args callee.params).afterwards
        (fun values middle => [⟨place, .function callee.name, none, values, [], callee.returns,
          (callee.call values middle).1⟩]) host
  | property object member =>
    let entry (target : Option Value) (middle : σ) : Entry :=
      ⟨place, .member object.type member.name, target, [], [], member.type,
        (member.read target middle).1⟩
    if member.isStatic then fun host => [entry none host]
    else fun host =>
      object.calls bindings (place ++ [0]) host ++
        (object.evaluate bindings).afterwards (fun v middle => [entry (some v) middle]) host
  | method object callee args => fun host =>
    object.calls bindings (place ++ [0]) host ++
      (object.evaluate bindings).afterwards
        (fun receiver middle =>
          callsAll bindings place 1 args callee.argumentParams middle ++
            (arguments bindings args callee.argumentParams).afterwards
              (fun values last =>
                let (target, received) := callee.passes receiver values
                [⟨place, .method object.type callee.name, target, received, callee.typeArgs,
                  callee.returns, (callee.body target received callee.typeArgs last).1⟩])
              middle)
        host
  | element list index _ => fun host =>
    index.calls bindings (place ++ [1]) host ++
      (index.evaluateNumber bindings).afterwards (fun _ => list.calls bindings (place ++ [0])) host

/-- The calls of arguments below a place, from a position on. -/
def callsAll (bindings : Names Value) (place : List Nat) (position : Nat) :
    List (Expr σ) → List Ty → σ → List Entry
  | arg :: args, param :: params => fun host =>
    arg.calls bindings (place ++ [position]) host ++
      (arg.evaluateArgument bindings param).afterwards
        (fun _ => callsAll bindings place (position + 1) args params) host
  | _, _ => fun _ => []

end

end Expr

/-! ## Erasure -/

namespace EvalM

/-- The first evaluation is the second with a log, to which it adds the given calls. -/
def Logs (m : EvalM (Watched σ) α) (m' : EvalM σ α) (calls : σ → List Entry) : Prop :=
  ∀ w, m w = ((m' w.host).1, ⟨(m' w.host).2, w.entries ++ calls w.host⟩)

namespace Logs

variable {m : EvalM (Watched σ) α} {m' : EvalM σ α} {calls : σ → List Entry}

theorem lift (result : Except EvalError α) :
    Logs (liftM result : EvalM (Watched σ) α) (liftM result) fun _ => [] := by
  intro w
  rw [List.append_nil]
  rfl

theorem pure (a : α) : Logs (Pure.pure a : EvalM (Watched σ) α) (Pure.pure a) fun _ => [] :=
  lift (.ok a)

theorem throw (e : EvalError) : Logs (throw e : EvalM (Watched σ) α) (throw e) fun _ => [] :=
  lift (.error e)

/-- One part after another: the second one adds its calls if the first one succeeds. -/
theorem bind {k : α → EvalM (Watched σ) β} {k' : α → EvalM σ β} {next : α → σ → List Entry}
    (hm : Logs m m' calls) (hk : ∀ a, Logs (k a) (k' a) (next a)) :
    Logs (m >>= k) (m' >>= k') fun host => calls host ++ m'.afterwards next host := by
  intro w
  show (m >>= k) w = (((m' >>= k') w.host).1,
    ⟨((m' >>= k') w.host).2, w.entries ++ (calls w.host ++ m'.afterwards next w.host)⟩)
  rw [bind_apply, bind_apply, hm w]
  rcases hrun : m' w.host with ⟨result, host⟩
  cases result with
  | error e => rw [afterwards_error hrun, List.append_nil]
  | ok a =>
    rw [afterwards_ok hrun, ← List.append_assoc]
    exact hk a ⟨host, w.entries ++ calls w.host⟩

/-- What comes after the last call adds none. -/
theorem finish {k : α → EvalM (Watched σ) β} {k' : α → EvalM σ β} (hm : Logs m m' calls)
    (hk : ∀ a, Logs (k a) (k' a) fun _ => []) : Logs (m >>= k) (m' >>= k') calls := by
  intro w
  have hnone : m'.afterwards (fun _ _ => []) w.host = [] := by
    unfold afterwards
    split <;> rfl
  have hbind : (m >>= k) w = (((m' >>= k') w.host).1,
      ⟨((m' >>= k') w.host).2, w.entries ++ (calls w.host ++ m'.afterwards (fun _ _ => []) w.host)⟩) :=
    hm.bind hk w
  rw [hnone, List.append_nil] at hbind
  exact hbind

theorem ite {c : Prop} [Decidable c] {n : EvalM (Watched σ) α} {n' : EvalM σ α}
    {others : σ → List Entry} (hm : Logs m m' calls) (hn : Logs n n' others) :
    Logs (if c then m else n) (if c then m' else n') (if c then calls else others) := by
  by_cases hc : c
  · rw [if_pos hc, if_pos hc, if_pos hc]
    exact hm
  · rw [if_neg hc, if_neg hc, if_neg hc]
    exact hn

theorem callFor {callee : String} {entry : Except String Value → Entry} {action : HostM σ Value} :
    Logs (HostM.callFor callee (action.watch entry)) (HostM.callFor callee action)
      fun host => [entry (action host).1] :=
  fun _ => rfl

end Logs

end EvalM

theorem Method.logs_callOn (m : Method σ) (place : List Nat) (object : Ty) (receiver : Value)
    (args : List Value) :
    EvalM.Logs ((m.watch place object).callOn receiver args) (m.callOn receiver args) fun host =>
      let (target, received) := m.passes receiver args
      [⟨place, .method object m.name, target, received, m.typeArgs, m.returns,
        (m.body target received m.typeArgs host).1⟩] := by
  rw [callOn_eq, callOn_eq]
  exact .callFor

namespace Expr

open EvalM

variable {bindings : Names Value}

section

variable {e : Expr (Watched σ)} {e' : Expr σ} {calls : σ → List Entry}

/-! However an expression is looked at, its calls are those that its answer takes. -/

theorem logs_evaluate (h : Logs (e.answer bindings) (e'.answer bindings) calls) :
    Logs (e.evaluate bindings) (e'.evaluate bindings) calls :=
  h.finish fun _ => .pure _

theorem logs_evaluateNumber (h : Logs (e.answer bindings) (e'.answer bindings) calls) :
    Logs (e.evaluateNumber bindings) (e'.evaluateNumber bindings) calls :=
  h.finish fun _ => .lift _

theorem logs_evaluateBool (h : Logs (e.answer bindings) (e'.answer bindings) calls) :
    Logs (e.evaluateBool bindings) (e'.evaluateBool bindings) calls :=
  h.finish fun _ => .lift _

theorem logs_evaluateText (h : Logs (e.answer bindings) (e'.answer bindings) calls) :
    Logs (e.evaluateText bindings) (e'.evaluateText bindings) calls :=
  h.finish fun _ => .lift _

end

theorem logs_arguments {args : List (Expr σ)}
    (h : ∀ arg ∈ args, ∀ place,
      Logs ((arg.watch place).answer bindings) (arg.answer bindings) (arg.calls bindings place))
    (place : List Nat) (position : Nat) (params : List Ty) :
    Logs (arguments bindings (watchAll place position args) params)
      (arguments bindings args params) (callsAll bindings place position args params) := by
  induction args generalizing position params with
  | nil => exact .pure []
  | cons arg args ih =>
    cases params with
    | nil => exact .pure []
    | cons param params =>
      obtain ⟨harg, hargs⟩ := List.forall_mem_cons.1 h
      rw [watchAll, arguments_cons, arguments_cons, callsAll]
      refine .bind ((harg _).finish fun a => ?_) fun v => .finish (ih hargs _ _) fun vs => .pure _
      rw [isNumeric_watch]
      exact .lift _

/-- Without the log, the evaluation of a watched tree is that of the tree, and the log is of its calls. -/
theorem logs_answer (e : Expr σ) (place : List Nat) :
    Logs ((e.watch place).answer bindings) (e.answer bindings) (e.calls bindings place) := by
  induction e generalizing place with
  | bool | number | string | enum | typeName => exact .pure _
  | castTarget => exact .throw _
  | var name type =>
    rw [watch, answer, answer]
    cases bindings.find? name with
    | none => exact .throw _
    | some v => exact .pure _
  | logicalUnary op operand ih =>
    rw [watch, answer_logicalUnary, answer_logicalUnary]
    exact .finish (logs_evaluateBool (ih _)) fun b => .pure _
  | logical op left right ihl ihr =>
    rw [watch, answer_logical, answer_logical]
    refine .bind (logs_evaluateBool (ihl _)) fun b => .ite ?_ (.pure _)
    exact .finish (logs_evaluateBool (ihr _)) fun b => .pure _
  | arithmeticUnary op operand type ih =>
    rw [watch, answer_arithmeticUnary, answer_arithmeticUnary]
    refine .finish (logs_evaluateNumber (ih _)) fun x => ?_
    cases op.applyUnary? with
    | none => exact .throw _
    | some f => exact .pure _
  | arithmetic op left right type ihl ihr =>
    rw [watch, answer_arithmetic, answer_arithmetic]
    refine .bind (logs_evaluateNumber (ihl _)) fun x => ?_
    exact .finish (logs_evaluateNumber (ihr _)) fun y => .pure _
  | comparison op left right ihl ihr =>
    rw [watch, answer_comparison, answer_comparison]
    refine .bind (logs_evaluateNumber (ihl _)) fun x => ?_
    exact .finish (logs_evaluateNumber (ihr _)) fun y => .pure _
  | conditional condition left right ihc ihl ihr =>
    rw [watch, answer_conditional, answer_conditional]
    refine .bind (logs_evaluateBool (ihc _)) fun b => .ite ?_ ?_
    · exact .finish (logs_evaluateNumber (ihl _)) fun x => .pure _
    · exact .finish (logs_evaluateNumber (ihr _)) fun x => .pure _
  | convert type operand ih =>
    rw [watch, answer_convert, answer_convert]
    exact .finish (logs_evaluate (ih _)) fun v => .finish (.lift _) fun v => .pure _
  | call callee args ih =>
    rw [watch, answer, answer]
    refine .bind (logs_arguments ih place 0 callee.params) fun vs => ?_
    exact .finish .callFor fun v => .pure _
  | property object member ih =>
    rw [watch, answer_property, answer_property, calls]
    refine .ite ?_ ?_
    · exact .finish .callFor fun v => .pure _
    · refine .bind (logs_evaluate (ih _)) fun a => ?_
      exact .finish .callFor fun v => .pure _
  | method object callee args iho ih =>
    rw [watch, answer_method, answer_method]
    refine .bind (logs_evaluate (iho _)) fun a => ?_
    refine .bind (logs_arguments ih place 1 callee.argumentParams) fun vs => ?_
    exact .finish (callee.logs_callOn place _ _ _) fun v => .pure _
  | element list index type ihl ihi =>
    rw [watch, answer_element, answer_element]
    refine .bind (logs_evaluateNumber (ihi _)) fun x => ?_
    refine .finish (logs_evaluate (ihl _)) fun v => ?_
    exact .finish (.lift _) fun items => .finish (.lift _) fun v => .pure _

/-- The log of a watched evaluation is of the calls of the tree. -/
theorem entries_eq_calls (e : Expr σ) (bindings : Names Value) (host : σ) :
    e.entries bindings host = e.calls bindings [] host := by
  rw [entries, logs_answer e [] ⟨host, []⟩]
  rfl

end Expr

end HostExpr
