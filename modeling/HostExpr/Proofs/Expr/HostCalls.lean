-- SUMMARY: Which calls on the host an evaluation makes, in any of the four ways.
import HostExpr.Compiled
import HostExpr.Proofs.Expr.CallOrder

/-!
# Calls on the host

Evaluating a node comes to some of its parts (`Enters`): to the first one at once, and to a later one only
if what is before it has succeeded and asks for it. From the top of a tree, evaluation so reaches some of
the nodes, each in a certain state of the host (`Reaches`). A reached node calls the host if its parts have
succeeded (`Makes`). The calls of these nodes, in the order of the tree, are all that an evaluation makes,
in whichever way the tree is evaluated. A reached node that fails ends the evaluation.
-/

namespace HostExpr

variable {σ : Type} {bindings : Names Value}

namespace Expr

/-! ## Parts of an evaluation -/

/-- Evaluating arguments from a state of the host comes to one of them, in another state. -/
def EntersArgument (bindings : Names Value) (args : List (Expr σ)) (params : List Ty) (host : σ)
    (i : Nat) (arg : Expr σ) (host' : σ) : Prop :=
  args[i]? = some arg ∧ i < params.length ∧
    ∃ values, arguments bindings (args.take i) params host = (.ok values, host')

/-- Evaluating a node from a state of the host comes to the part at a position, in another state. -/
inductive Enters (bindings : Names Value) (host : σ) : Expr σ → Nat → Expr σ → σ → Prop
  | notOperand {op : LogicalOp} {operand : Expr σ} :
      Enters bindings host (logicalUnary op operand) 0 operand host
  | logicalLeft {op : LogicalOp} {left right : Expr σ} :
      Enters bindings host (logical op left right) 0 left host
  | logicalRight {op : LogicalOp} {left right : Expr σ} {b : Bool} {host' : σ} :
      left.evaluateBool bindings host = (.ok b, host') → op.needsRight b →
      Enters bindings host (logical op left right) 1 right host'
  | signOperand {op : ArithmeticOp} {operand : Expr σ} {type : Ty} :
      Enters bindings host (arithmeticUnary op operand type) 0 operand host
  | arithmeticLeft {op : ArithmeticOp} {left right : Expr σ} {type : Ty} :
      Enters bindings host (arithmetic op left right type) 0 left host
  | arithmeticRight {op : ArithmeticOp} {left right : Expr σ} {type : Ty} {x : Float} {host' : σ} :
      left.evaluateNumber bindings host = (.ok x, host') →
      Enters bindings host (arithmetic op left right type) 1 right host'
  | comparisonLeft {op : ComparisonOp} {left right : Expr σ} :
      Enters bindings host (comparison op left right) 0 left host
  | comparisonRight {op : ComparisonOp} {left right : Expr σ} {x : Float} {host' : σ} :
      left.evaluateNumber bindings host = (.ok x, host') →
      Enters bindings host (comparison op left right) 1 right host'
  | condition {condition left right : Expr σ} :
      Enters bindings host (conditional condition left right) 0 condition host
  | whenTrue {condition left right : Expr σ} {host' : σ} :
      condition.evaluateBool bindings host = (.ok true, host') →
      Enters bindings host (conditional condition left right) 1 left host'
  | whenFalse {condition left right : Expr σ} {host' : σ} :
      condition.evaluateBool bindings host = (.ok false, host') →
      Enters bindings host (conditional condition left right) 2 right host'
  | convertOperand {type : Ty} {operand : Expr σ} :
      Enters bindings host (convert type operand) 0 operand host
  | argument {callee : HostFunction σ} {args : List (Expr σ)} {i : Nat} {arg : Expr σ} {host' : σ} :
      EntersArgument bindings args callee.params host i arg host' →
      Enters bindings host (call callee args) i arg host'
  | memberObject {object : Expr σ} {member : Member σ} :
      member.isStatic = false → Enters bindings host (property object member) 0 object host
  | methodObject {object : Expr σ} {callee : Method σ} {args : List (Expr σ)} :
      Enters bindings host (method object callee args) 0 object host
  | methodArgument {object : Expr σ} {callee : Method σ} {args : List (Expr σ)} {receiver : Value}
      {i : Nat} {arg : Expr σ} {middle host' : σ} :
      object.evaluate bindings host = (.ok receiver, middle) →
      EntersArgument bindings args callee.argumentParams middle i arg host' →
      Enters bindings host (method object callee args) (i + 1) arg host'
  | index {list index : Expr σ} {type : Ty} :
      Enters bindings host (element list index type) 1 index host
  | list {list index : Expr σ} {type : Ty} {x : Float} {host' : σ} :
      index.evaluateNumber bindings host = (.ok x, host') →
      Enters bindings host (element list index type) 0 list host'

/-- Evaluating a tree from a state of the host comes to the node at a place, in another state. -/
inductive Reaches (bindings : Names Value) (root : Expr σ) (host : σ) :
    List Nat → Expr σ → σ → Prop
  | root : Reaches bindings root host [] root host
  | part {place : List Nat} {i : Nat} {node child : Expr σ} {middle host' : σ} :
      Reaches bindings root host place node middle → Enters bindings middle node i child host' →
      Reaches bindings root host (place ++ [i]) child host'

/-- Evaluating the node at a place from a state of the host calls the host itself, with the entry. -/
def Makes (bindings : Names Value) (place : List Nat) (host : σ) (entry : Entry) : Expr σ → Prop
  | call callee args => ∃ values host',
    arguments bindings args callee.params host = (.ok values, host') ∧
      entry = ⟨place, .function callee.name, none, values, [], callee.returns,
        (callee.call values host').1⟩
  | property object member => ∃ target host',
    (if member.isStatic then target = none ∧ host' = host
      else ∃ v, object.evaluate bindings host = (.ok v, host') ∧ target = some v) ∧
      entry = ⟨place, .member object.type member.name, target, [], [], member.type,
        (member.read target host').1⟩
  | method object callee args => ∃ receiver middle values host',
    object.evaluate bindings host = (.ok receiver, middle) ∧
      arguments bindings args callee.argumentParams middle = (.ok values, host') ∧
      let (target, received) := callee.passes receiver values
      entry = ⟨place, .method object.type callee.name, target, received, callee.typeArgs,
        callee.returns, (callee.body target received callee.typeArgs host').1⟩
  | _ => False

end Expr

/-! ## Members of the log -/

theorem EvalM.mem_afterwards {α : Type} {m : EvalM σ α} {next : α → σ → List Entry} {host : σ}
    {entry : Entry} :
    entry ∈ m.afterwards next host ↔ ∃ a host', m host = (.ok a, host') ∧ entry ∈ next a host' := by
  rcases hm : m host with ⟨result, host'⟩
  cases result with
  | error e =>
    rw [afterwards_error hm]
    constructor
    · nofun
    · rintro ⟨a, host'', heq, -⟩
      cases heq
  | ok a =>
    rw [afterwards_ok hm]
    constructor
    · intro hmem
      exact ⟨a, host', rfl, hmem⟩
    · rintro ⟨a', host'', heq, hmem⟩
      cases heq
      exact hmem

namespace Expr

open EvalM

theorem mem_callsAll {args : List (Expr σ)} {params : List Ty} {place : List Nat} {position : Nat}
    {host : σ} {entry : Entry} :
    entry ∈ callsAll bindings place position args params host ↔ ∃ i arg host',
      EntersArgument bindings args params host i arg host' ∧
        entry ∈ arg.calls bindings (place ++ [position + i]) host' := by
  induction args generalizing position params host with
  | nil => simp [callsAll, EntersArgument]
  | cons arg args ih =>
    cases params with
    | nil => simp [callsAll, EntersArgument]
    | cons param params =>
      rw [callsAll]
      simp only [List.mem_append, mem_afterwards, ih]
      constructor
      · rintro (hmem | ⟨v, middle, harg, i, other, host', ⟨hother, hi, values, hvalues⟩, hmem⟩)
        · have hnone : arguments bindings ((arg :: args).take 0) (param :: params) host =
              (.ok [], host) := by
            rw [List.take_zero, arguments_nil]
            rfl
          exact ⟨0, arg, host, ⟨rfl, Nat.succ_pos _, [], hnone⟩, hmem⟩
        · refine ⟨i + 1, other, host', ⟨hother, Nat.succ_lt_succ hi, v :: values, ?_⟩, ?_⟩
          · rw [List.take_succ_cons, arguments_cons]
            exact bind_eq_ok.2 ⟨v, middle, harg, bind_eq_ok.2 ⟨values, host', hvalues, rfl⟩⟩
          · rw [Nat.add_assoc, Nat.add_comm 1] at hmem
            exact hmem
      · rintro ⟨i, other, host', ⟨hother, hi, values, hvalues⟩, hmem⟩
        cases i with
        | zero =>
          cases hother
          rw [List.take_zero, arguments_nil] at hvalues
          cases hvalues
          exact .inl hmem
        | succ i =>
          rw [List.take_succ_cons, arguments_cons] at hvalues
          obtain ⟨v, middle, harg, hvalues⟩ := bind_eq_ok.1 hvalues
          obtain ⟨vs, host'', hvalues, hrest⟩ := bind_eq_ok.1 hvalues
          cases hrest
          refine .inr ⟨v, middle, harg, i, other, host',
            ⟨hother, Nat.lt_of_succ_lt_succ hi, vs, hvalues⟩, ?_⟩
          rw [Nat.add_assoc, Nat.add_comm 1]
          exact hmem

/-- The calls of a tree are that of its top and those of the parts that its evaluation comes to. -/
theorem mem_calls_iff {e : Expr σ} {place : List Nat} {host : σ} {entry : Entry} :
    entry ∈ e.calls bindings place host ↔ e.Makes bindings place host entry ∨ ∃ i child host',
      Enters bindings host e i child host' ∧
        entry ∈ child.calls bindings (place ++ [i]) host' := by
  constructor
  · intro hmem
    cases e with
    | bool | number | string | enum | var | typeName | castTarget => cases hmem
    | logicalUnary op operand => exact .inr ⟨0, operand, host, .notOperand, hmem⟩
    | arithmeticUnary op operand type => exact .inr ⟨0, operand, host, .signOperand, hmem⟩
    | convert type operand => exact .inr ⟨0, operand, host, .convertOperand, hmem⟩
    | logical op left right =>
      rw [calls, List.mem_append, mem_afterwards] at hmem
      rcases hmem with hmem | ⟨b, host', hleft, hmem⟩
      · exact .inr ⟨0, left, host, .logicalLeft, hmem⟩
      · split at hmem
        · exact .inr ⟨1, right, host', .logicalRight hleft ‹_›, hmem⟩
        · cases hmem
    | arithmetic op left right type =>
      rw [calls, List.mem_append, mem_afterwards] at hmem
      rcases hmem with hmem | ⟨x, host', hleft, hmem⟩
      · exact .inr ⟨0, left, host, .arithmeticLeft, hmem⟩
      · exact .inr ⟨1, right, host', .arithmeticRight hleft, hmem⟩
    | comparison op left right =>
      rw [calls, List.mem_append, mem_afterwards] at hmem
      rcases hmem with hmem | ⟨x, host', hleft, hmem⟩
      · exact .inr ⟨0, left, host, .comparisonLeft, hmem⟩
      · exact .inr ⟨1, right, host', .comparisonRight hleft, hmem⟩
    | conditional condition left right =>
      rw [calls, List.mem_append, mem_afterwards] at hmem
      rcases hmem with hmem | ⟨b, host', hcondition, hmem⟩
      · exact .inr ⟨0, condition, host, .condition, hmem⟩
      · cases b with
        | true => exact .inr ⟨1, left, host', .whenTrue hcondition, hmem⟩
        | false => exact .inr ⟨2, right, host', .whenFalse hcondition, hmem⟩
    | call callee args =>
      rw [calls, List.mem_append, mem_afterwards, mem_callsAll] at hmem
      rcases hmem with ⟨i, arg, host', harg, hmem⟩ | ⟨values, host', hvalues, hmem⟩
      · rw [Nat.zero_add] at hmem
        exact .inr ⟨i, arg, host', .argument harg, hmem⟩
      · exact .inl ⟨values, host', hvalues, List.mem_singleton.1 hmem⟩
    | property object member =>
      rw [calls] at hmem
      split at hmem
      · exact .inl ⟨none, host, by rw [if_pos ‹_›]; exact ⟨rfl, rfl⟩, List.mem_singleton.1 hmem⟩
      · rw [List.mem_append, mem_afterwards] at hmem
        rcases hmem with hmem | ⟨v, host', hobject, hmem⟩
        · exact .inr ⟨0, object, host, .memberObject (eq_false_of_ne_true ‹_›), hmem⟩
        · exact .inl ⟨some v, host', by rw [if_neg ‹_›]; exact ⟨v, hobject, rfl⟩,
            List.mem_singleton.1 hmem⟩
    | method object callee args =>
      rw [calls, List.mem_append, mem_afterwards] at hmem
      rcases hmem with hmem | ⟨receiver, middle, hobject, hmem⟩
      · exact .inr ⟨0, object, host, .methodObject, hmem⟩
      · rw [List.mem_append, mem_afterwards, mem_callsAll] at hmem
        rcases hmem with ⟨i, arg, host', harg, hmem⟩ | ⟨values, host', hvalues, hmem⟩
        · rw [Nat.add_comm 1] at hmem
          exact .inr ⟨i + 1, arg, host', .methodArgument hobject harg, hmem⟩
        · exact .inl ⟨receiver, middle, values, host', hobject, hvalues, List.mem_singleton.1 hmem⟩
    | element list index type =>
      rw [calls, List.mem_append, mem_afterwards] at hmem
      rcases hmem with hmem | ⟨x, host', hindex, hmem⟩
      · exact .inr ⟨1, index, host, .index, hmem⟩
      · exact .inr ⟨0, list, host', .list hindex, hmem⟩
  · rintro (hmakes | ⟨i, child, host', henters, hmem⟩)
    · cases e with
      | call callee args =>
        obtain ⟨values, host', hvalues, rfl⟩ := hmakes
        rw [calls]
        exact List.mem_append_right _
          (mem_afterwards.2 ⟨values, host', hvalues, List.mem_singleton_self _⟩)
      | property object member =>
        obtain ⟨target, host', hobject, rfl⟩ := hmakes
        rw [calls]
        split at hobject
        · obtain ⟨rfl, rfl⟩ := hobject
          rw [if_pos ‹_›]
          exact List.mem_singleton_self _
        · obtain ⟨v, hobject, rfl⟩ := hobject
          rw [if_neg ‹_›]
          exact List.mem_append_right _
            (mem_afterwards.2 ⟨v, host', hobject, List.mem_singleton_self _⟩)
      | method object callee args =>
        obtain ⟨receiver, middle, values, host', hobject, hvalues, rfl⟩ := hmakes
        rw [calls]
        refine List.mem_append_right _ (mem_afterwards.2 ⟨receiver, middle, hobject, ?_⟩)
        exact List.mem_append_right _
          (mem_afterwards.2 ⟨values, host', hvalues, List.mem_singleton_self _⟩)
      | _ => exact hmakes.elim
    · cases henters with
      | notOperand | signOperand | convertOperand => exact hmem
      | logicalLeft | arithmeticLeft | comparisonLeft | condition | methodObject | index =>
        rw [calls]
        exact List.mem_append_left _ hmem
      | logicalRight hleft hneeds =>
        rw [calls]
        refine List.mem_append_right _ (mem_afterwards.2 ⟨_, _, hleft, ?_⟩)
        rw [if_pos hneeds]
        exact hmem
      | arithmeticRight hfirst | comparisonRight hfirst | whenTrue hfirst | whenFalse hfirst
      | list hfirst =>
        rw [calls]
        exact List.mem_append_right _ (mem_afterwards.2 ⟨_, _, hfirst, hmem⟩)
      | argument harg =>
        rw [calls]
        refine List.mem_append_left _ (mem_callsAll.2 ⟨_, _, _, harg, ?_⟩)
        rw [Nat.zero_add]
        exact hmem
      | memberObject hstatic =>
        rw [calls, if_neg (ne_true_of_eq_false hstatic)]
        exact List.mem_append_left _ hmem
      | methodArgument hobject harg =>
        rw [calls]
        refine List.mem_append_right _ (mem_afterwards.2 ⟨_, _, hobject, ?_⟩)
        refine List.mem_append_left _ (mem_callsAll.2 ⟨_, _, _, harg, ?_⟩)
        rw [Nat.add_comm 1]
        exact hmem

/-! ## Nodes that are reached -/

theorem Enters.mem_children {e child : Expr σ} {host host' : σ} {i : Nat}
    (h : Enters bindings host e i child host') : child ∈ e.children := by
  cases h with
  | argument harg => exact List.mem_of_getElem? harg.1
  | methodArgument _ harg => exact List.mem_cons_of_mem _ (List.mem_of_getElem? harg.1)
  | _ => simp [children]

/-- The calls of a tree are those of the nodes that are reached in it. -/
theorem mem_calls_iff_reaches {root : Expr σ} {host : σ} {entry : Entry} :
    entry ∈ root.calls bindings [] host ↔ ∃ place node middle,
      Reaches bindings root host place node middle ∧ node.Makes bindings place middle entry := by
  constructor
  · have hbelow : ∀ (node : Expr σ) (place : List Nat) (middle : σ),
        Reaches bindings root host place node middle → entry ∈ node.calls bindings place middle →
        ∃ place node middle, Reaches bindings root host place node middle ∧
          node.Makes bindings place middle entry := by
      intro node
      induction node using children_induction with
      | node node ih =>
        intro place middle hreaches hmem
        rcases mem_calls_iff.1 hmem with hmakes | ⟨i, child, host', henters, hmem⟩
        · exact ⟨place, node, middle, hreaches, hmakes⟩
        · exact ih child henters.mem_children _ host' (.part hreaches henters) hmem
    exact hbelow root [] host .root
  · rintro ⟨place, node, middle, hreaches, hmakes⟩
    have hmem : entry ∈ node.calls bindings place middle := mem_calls_iff.2 (.inl hmakes)
    clear hmakes
    induction hreaches with
    | root => exact hmem
    | part _ henters ih => exact ih (mem_calls_iff.2 (.inr ⟨_, _, _, henters, hmem⟩))

/-! ## The first failure -/

section

variable {α : Type} {host host' : σ} {e : EvalError} {first last : List Entry}
  {next : α → σ → List Entry}

theorem suffix_of_error {m : EvalM σ α} (h : m host = (.error e, host')) (hlast : last <:+ first) :
    last <:+ first ++ m.afterwards next host := by
  rw [afterwards_error h, List.append_nil]
  exact hlast

theorem suffix_of_ok {m : EvalM σ α} {a : α} (h : m host = (.ok a, host'))
    (hlast : last <:+ next a host') : last <:+ first ++ m.afterwards next host := by
  rw [afterwards_ok h]
  exact hlast.trans (List.suffix_append _ _)

end

/-- An argument that fails is the last one that is evaluated. -/
theorem EntersArgument.fails {args : List (Expr σ)} {params : List Ty} {host middle host' : σ} {i : Nat}
    {arg : Expr σ} {e : EvalError} (h : EntersArgument bindings args params host i arg middle)
    (hfails : arg.answer bindings middle = (.error e, host')) (place : List Nat) (position : Nat) :
    arguments bindings args params host = (.error e, host') ∧
      arg.calls bindings (place ++ [position + i]) middle <:+
        callsAll bindings place position args params host := by
  obtain ⟨harg, hi, values, hvalues⟩ := h
  induction args generalizing params host i position values with
  | nil => cases harg
  | cons first args ih =>
    cases params with
    | nil => cases hi
    | cons param params =>
      rw [callsAll, arguments_cons]
      cases i with
      | zero =>
        cases harg
        rw [List.take_zero, arguments_nil] at hvalues
        cases hvalues
        have hfirst : arg.evaluateArgument bindings param middle = (.error e, host') :=
          bind_of_error hfails
        exact ⟨bind_of_error hfirst, suffix_of_error hfirst List.suffix_rfl⟩
      | succ i =>
        rw [List.take_succ_cons, arguments_cons] at hvalues
        obtain ⟨v, before, hfirst, hvalues⟩ := bind_eq_ok.1 hvalues
        obtain ⟨vs, last, hvalues, hrest⟩ := bind_eq_ok.1 hvalues
        cases hrest
        obtain ⟨hargs, hcalls⟩ := ih (position + 1) harg (Nat.lt_of_succ_lt_succ hi) vs hvalues
        rw [Nat.add_assoc, Nat.add_comm 1] at hcalls
        rw [bind_of_ok hfirst]
        exact ⟨bind_of_error hargs, suffix_of_ok hfirst hcalls⟩

/-- A part that fails is the last one that the evaluation comes to. -/
theorem Enters.fails {e child : Expr σ} {host middle host' : σ} {i : Nat} {err : EvalError}
    (h : Enters bindings host e i child middle)
    (hfails : child.answer bindings middle = (.error err, host')) (place : List Nat) :
    e.answer bindings host = (.error err, host') ∧
      child.calls bindings (place ++ [i]) middle <:+ e.calls bindings place host := by
  have hvalue : child.evaluate bindings middle = (.error err, host') := bind_of_error hfails
  have hnumber : child.evaluateNumber bindings middle = (.error err, host') := bind_of_error hfails
  have hbool : child.evaluateBool bindings middle = (.error err, host') := bind_of_error hfails
  cases h with
  | notOperand =>
    rw [answer_logicalUnary, calls]
    exact ⟨bind_of_error hbool, List.suffix_rfl⟩
  | signOperand =>
    rw [answer_arithmeticUnary, calls]
    exact ⟨bind_of_error hnumber, List.suffix_rfl⟩
  | convertOperand =>
    rw [answer_convert, calls]
    exact ⟨bind_of_error hvalue, List.suffix_rfl⟩
  | logicalLeft =>
    rw [answer_logical, calls]
    exact ⟨bind_of_error hbool, suffix_of_error hbool List.suffix_rfl⟩
  | logicalRight hleft hneeds =>
    rw [answer_logical, calls, bind_of_ok hleft, if_pos hneeds]
    refine ⟨bind_of_error hbool, suffix_of_ok hleft ?_⟩
    exact (if_pos hneeds).symm ▸ List.suffix_rfl
  | arithmeticLeft =>
    rw [answer_arithmetic, calls]
    exact ⟨bind_of_error hnumber, suffix_of_error hnumber List.suffix_rfl⟩
  | comparisonLeft =>
    rw [answer_comparison, calls]
    exact ⟨bind_of_error hnumber, suffix_of_error hnumber List.suffix_rfl⟩
  | arithmeticRight hleft =>
    rw [answer_arithmetic, calls, bind_of_ok hleft]
    exact ⟨bind_of_error hnumber, suffix_of_ok hleft List.suffix_rfl⟩
  | comparisonRight hleft =>
    rw [answer_comparison, calls, bind_of_ok hleft]
    exact ⟨bind_of_error hnumber, suffix_of_ok hleft List.suffix_rfl⟩
  | condition =>
    rw [answer_conditional, calls]
    exact ⟨bind_of_error hbool, suffix_of_error hbool List.suffix_rfl⟩
  | whenTrue hcondition | whenFalse hcondition =>
    rw [answer_conditional, calls, bind_of_ok hcondition]
    exact ⟨bind_of_error hnumber, suffix_of_ok hcondition List.suffix_rfl⟩
  | argument harg =>
    obtain ⟨hargs, hcalls⟩ := harg.fails hfails place 0
    rw [Nat.zero_add] at hcalls
    rw [answer, calls]
    exact ⟨bind_of_error hargs, suffix_of_error hargs hcalls⟩
  | memberObject hstatic =>
    have hinstance := ne_true_of_eq_false hstatic
    rw [answer_property, calls, if_neg hinstance, if_neg hinstance]
    exact ⟨bind_of_error hvalue, suffix_of_error hvalue List.suffix_rfl⟩
  | methodObject =>
    rw [answer_method, calls]
    exact ⟨bind_of_error hvalue, suffix_of_error hvalue List.suffix_rfl⟩
  | methodArgument hobject harg =>
    obtain ⟨hargs, hcalls⟩ := harg.fails hfails place 1
    rw [Nat.add_comm 1] at hcalls
    rw [answer_method, calls, bind_of_ok hobject]
    exact ⟨bind_of_error hargs, suffix_of_ok hobject (suffix_of_error hargs hcalls)⟩
  | index =>
    rw [answer_element, calls]
    exact ⟨bind_of_error hnumber, suffix_of_error hnumber List.suffix_rfl⟩
  | list hindex =>
    rw [answer_element, calls, bind_of_ok hindex]
    exact ⟨bind_of_error hvalue, suffix_of_ok hindex List.suffix_rfl⟩

/-- A node that is reached and fails ends the evaluation: nothing is called after it. -/
theorem Reaches.fails {root node : Expr σ} {host middle host' : σ} {place : List Nat} {err : EvalError}
    (h : Reaches bindings root host place node middle)
    (hfails : node.answer bindings middle = (.error err, host')) :
    root.answer bindings host = (.error err, host') ∧
      node.calls bindings place middle <:+ root.calls bindings [] host := by
  induction h with
  | root => exact ⟨hfails, List.suffix_rfl⟩
  | part _ henters ih =>
    obtain ⟨hnode, hcalls⟩ := henters.fails hfails _
    obtain ⟨hroot, hsuffix⟩ := ih hnode
    exact ⟨hroot, hcalls.trans hsuffix⟩

/-! ## The four ways -/

/-- The value of a tree fails as its answer does. -/
theorem evaluate_eq_error_iff {e : Expr σ} {host host' : σ} {err : EvalError} :
    e.evaluate bindings host = (.error err, host') ↔ e.answer bindings host = (.error err, host') := by
  refine ⟨fun h => ?_, bind_of_error⟩
  rw [evaluate] at h
  rcases hanswer : e.answer bindings host with ⟨result, last⟩
  cases result with
  | error err' =>
    rw [bind_of_error hanswer] at h
    cases h
    rfl
  | ok a =>
    rw [bind_of_ok hanswer] at h
    cases h

/-- Looking at an answer leaves the host alone. -/
theorem lift_snd {α β : Type} {m : EvalM σ α} {view : α → Except EvalError β} {host : σ} :
    ((m >>= fun a => liftM (view a)) host).2 = (m host).2 := by
  rw [bind_apply]
  rcases m host with ⟨result, host'⟩
  cases result <;> rfl

end Expr

namespace Compiled

/-- The compiled expression with every closure of the host watched. -/
def watch (c : Compiled σ) : Compiled (Watched σ) := ⟨c.source, c.root.watch []⟩

/-- The log is of the calls on the host that an evaluation of the expression makes, in any of the four
ways. -/
structure CallsInOrder (c : Compiled σ) (bindings : Names Value) (host : σ) (log : List Entry) :
    Prop where
  /-- No node calls the host twice. -/
  nodup : (log.map Entry.place).Nodup
  /-- The nodes call in the order of the tree. -/
  sublist : (log.map Entry.place).Sublist (c.root.callOrder [])
  /-- A node calls exactly if it is reached and its parts succeed. -/
  mem_iff (entry : Entry) : entry ∈ log ↔ ∃ place node middle,
    c.root.Reaches bindings host place node middle ∧ node.Makes bindings place middle entry
  /-- The first node that fails ends the evaluation, and nothing is called after it. -/
  fails {place : List Nat} {node : Expr σ} {middle last : σ} {err : EvalError} :
    c.root.Reaches bindings host place node middle →
    node.answer bindings middle = (.error err, last) →
    (c.evaluate bindings host).value = (.error err, last) ∧
      node.calls bindings place middle <:+ log
  /-- Each way makes these calls, and leaves the host in the same state. -/
  evaluate : (c.watch.evaluate bindings ⟨host, []⟩).value =
    ((c.evaluate bindings host).value.1, ⟨(c.evaluate bindings host).value.2, log⟩)
  evaluateNumber : (c.watch.evaluateNumber bindings ⟨host, []⟩).value =
    ((c.evaluateNumber bindings host).value.1, ⟨(c.evaluate bindings host).value.2, log⟩)
  evaluateBool : (c.watch.evaluateBool bindings ⟨host, []⟩).value =
    ((c.evaluateBool bindings host).value.1, ⟨(c.evaluate bindings host).value.2, log⟩)
  evaluateText : (c.watch.evaluateText bindings ⟨host, []⟩).value =
    ((c.evaluateText bindings host).value.1, ⟨(c.evaluate bindings host).value.2, log⟩)
  /-- If there is no value, then there is nothing else either, for the same reason. -/
  error {err : EvalError} : (c.evaluate bindings host).value.1 = .error err →
    (c.evaluateNumber bindings host).value.1 = .error err ∧
      (c.evaluateBool bindings host).value.1 = .error err ∧
      (c.evaluateText bindings host).value.1 = .error err

open HostExpr.Expr EvalM in
/-- Evaluation calls the host at most once for each node, in the order of the tree and up to the first
failure, and in the same way for all four ways to evaluate. -/
theorem callsInOrder (c : Compiled σ) (bindings : Names Value) (host : σ) :
    c.CallsInOrder bindings host (c.root.entries bindings host) := by
  have hlogs : Logs ((c.root.watch []).answer bindings) (c.root.answer bindings) _ :=
    logs_answer c.root []
  have hstate : (c.root.evaluate bindings host).2 = (c.root.answer bindings host).2 := lift_snd
  rw [entries_eq_calls]
  refine ⟨nodup_calls .., calls_sublist_callOrder .., fun entry => mem_calls_iff_reaches, ?_,
    logs_evaluate hlogs ⟨host, []⟩, ?_, ?_, ?_, ?_⟩
  · intro place node middle last err hreaches hfails
    obtain ⟨hroot, hcalls⟩ := hreaches.fails hfails
    exact ⟨evaluate_eq_error_iff.2 hroot, hcalls⟩
  · show _ = ((c.root.evaluateNumber bindings host).1, _)
    have hnumber : (c.root.evaluateNumber bindings host).2 = _ := lift_snd.trans hstate.symm
    exact hnumber ▸ logs_evaluateNumber hlogs ⟨host, []⟩
  · have hbool : (c.root.evaluateBool bindings host).2 = _ := lift_snd.trans hstate.symm
    exact hbool ▸ logs_evaluateBool hlogs ⟨host, []⟩
  · have htext : (c.root.evaluateText bindings host).2 = _ := lift_snd.trans hstate.symm
    exact htext ▸ logs_evaluateText hlogs ⟨host, []⟩
  · intro err herror
    have hanswer : c.root.answer bindings host = (.error err, (c.evaluate bindings host).value.2) :=
      evaluate_eq_error_iff.1 (Prod.ext herror rfl)
    exact ⟨congrArg Prod.fst (bind_of_error hanswer), congrArg Prod.fst (bind_of_error hanswer),
      congrArg Prod.fst (bind_of_error hanswer)⟩

end Compiled

end HostExpr
