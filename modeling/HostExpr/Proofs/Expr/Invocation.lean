-- SUMMARY: What the body of a method receives when an evaluation invokes it.
import HostExpr.Proofs.Expr.Modes

/-!
# Invocations

`Expr.Invokes` observes a method call from outside: whatever body stands in the place of the method's
own, the evaluation of the call is a run of that body on certain values, in a certain state of the host.
It holds of just the evaluations in which the receiver and the arguments come to values, and with these
values (`invokes_iff`); every other evaluation of the call fails before the body is run, whatever it is
(`invokes_or_fails`).
-/

namespace HostExpr

variable {σ : Type}

/-- The method with another body. -/
def Method.withBody (m : Method σ) (body : Option Value → List Value → List Ty → HostM σ Value) :
    Method σ :=
  { m with body := body }

theorem Method.snd_passes (m : Method σ) (receiver : Value) (args : List Value) :
    (m.passes receiver args).2 = if m.isExtension then receiver :: args else args := by
  unfold passes
  split
  · rfl
  · split <;> rfl

theorem Method.callOn_withBody (m : Method σ) (body : Option Value → List Value → List Ty → HostM σ Value)
    (receiver : Value) (args : List Value) :
    (m.withBody body).callOn receiver args = HostM.callFor m.name
      (body (m.passes receiver args).1 (m.passes receiver args).2 m.typeArgs) :=
  callOn_eq ..

namespace Expr

open EvalM

variable {bindings : Names Value} {object : Expr σ} {callee : Method σ} {args : List (Expr σ)}

/-! ## Values of arguments -/

/-- The expression is evaluated, and its answer is brought to the type of one of the parameters. -/
def ComesTo (bindings : Names Value) (params : List Ty) (e : Expr σ) (host : σ) (v : Value)
    (host' : σ) : Prop :=
  ∃ a, e.answer bindings host = (.ok a, host') ∧
    ∃ param ∈ params, a.toArgument e.isNumeric param = .ok v

/-- Each of the expressions is evaluated once, in order, and they come to the values. -/
inductive EvaluateInOrder (bindings : Names Value) (params : List Ty) :
    List (Expr σ) → σ → List Value → σ → Prop
  | nil {host : σ} : EvaluateInOrder bindings params [] host [] host
  | cons {e : Expr σ} {es : List (Expr σ)} {host middle host' : σ} {v : Value} {vs : List Value} :
      e.ComesTo bindings params host v middle → EvaluateInOrder bindings params es middle vs host' →
      EvaluateInOrder bindings params (e :: es) host (v :: vs) host'

namespace EvaluateInOrder

variable {params params' : List Ty} {host host' : σ} {vs : List Value}

theorem length_eq (h : EvaluateInOrder bindings params args host vs host') :
    vs.length = args.length := by
  induction h with
  | nil => rfl
  | cons _ _ ih => exact congrArg (· + 1) ih

theorem mono (h : EvaluateInOrder bindings params args host vs host') (hsubset : params ⊆ params') :
    EvaluateInOrder bindings params' args host vs host' := by
  induction h with
  | nil => exact .nil
  | cons hfirst _ ih =>
    obtain ⟨a, hanswer, param, hparam, hv⟩ := hfirst
    exact .cons ⟨a, hanswer, param, hsubset hparam, hv⟩ ih

end EvaluateInOrder

/-- As many arguments are evaluated as there are parameters. -/
theorem evaluateInOrder_of_arguments {params : List Ty} {host host' : σ} {vs : List Value}
    (h : arguments bindings args params host = (.ok vs, host')) :
    EvaluateInOrder bindings params (args.take params.length) host vs host' := by
  induction args generalizing params host vs with
  | nil =>
    rw [arguments_nil] at h
    cases h
    rw [List.take_nil]
    exact .nil
  | cons arg args ih =>
    cases params with
    | nil =>
      rw [arguments_nil_right] at h
      cases h
      exact .nil
    | cons param params =>
      rw [arguments] at h
      obtain ⟨a, middle, hanswer, h⟩ := bind_eq_ok.1 h
      obtain ⟨v, middle', hlift, h⟩ := bind_eq_ok.1 h
      obtain ⟨hv, rfl⟩ := liftM_eq_ok.1 hlift
      obtain ⟨vs', host'', hrest, h⟩ := bind_eq_ok.1 h
      cases h
      have hfirst : arg.ComesTo bindings (param :: params) host v middle :=
        ⟨a, hanswer, param, List.mem_cons_self .., hv⟩
      exact .cons hfirst ((ih hrest).mono (List.subset_cons_self ..))

/-- Where there is a parameter for it, an argument comes to the value at its position. -/
theorem arguments_getElem? {params : List Ty} {host host' : σ} {vs : List Value}
    (h : arguments bindings args params host = (.ok vs, host')) {i : Nat} {arg : Expr σ} {param : Ty}
    (harg : args[i]? = some arg) (hparam : params[i]? = some param) :
    ∃ v, vs[i]? = some v ∧ ∃ before after, arg.ComesTo bindings [param] before v after := by
  induction args generalizing params host vs i with
  | nil => cases harg
  | cons first args ih =>
    cases params with
    | nil => cases hparam
    | cons type params =>
      rw [arguments] at h
      obtain ⟨a, middle, hanswer, h⟩ := bind_eq_ok.1 h
      obtain ⟨v, middle', hlift, h⟩ := bind_eq_ok.1 h
      obtain ⟨hv, rfl⟩ := liftM_eq_ok.1 hlift
      obtain ⟨vs', host'', hrest, h⟩ := bind_eq_ok.1 h
      cases h
      cases i with
      | zero =>
        cases harg
        cases hparam
        exact ⟨v, rfl, host, middle, a, hanswer, param, List.mem_singleton_self _, hv⟩
      | succ i => exact ih hrest harg hparam

/-! ## Method calls -/

/-- The evaluation of the call reaches its invocation: it is, whatever the body, a run of the body on the
target and the values received, from the state `host'`. -/
def Invokes (bindings : Names Value) (object : Expr σ) (callee : Method σ) (args : List (Expr σ))
    (host : σ) (target : Option Value) (received : List Value) (host' : σ) : Prop :=
  ∀ body, (method object (callee.withBody body) args).answer bindings host =
    (Answer.value <$> HostM.callFor callee.name (body target received callee.typeArgs)) host'

/-- The values are those of the call: the receiver's first, for an extension method, and then those of
all arguments, each evaluated once and in order after the receiver. -/
def ReceivesAll (bindings : Names Value) (object : Expr σ) (callee : Method σ)
    (args : List (Expr σ)) (host : σ) (received : List Value) (host' : σ) : Prop :=
  ∃ receiver middle values, object.evaluate bindings host = (.ok receiver, middle) ∧
    EvaluateInOrder bindings callee.params args middle values host' ∧
    received = if callee.isExtension then receiver :: values else values

theorem ReceivesAll.length_eq {host host' : σ} {received : List Value}
    (h : ReceivesAll bindings object callee args host received host') :
    received.length = if callee.isExtension then args.length + 1 else args.length := by
  obtain ⟨receiver, middle, values, -, hvalues, rfl⟩ := h
  split
  · exact congrArg (· + 1) hvalues.length_eq
  · exact hvalues.length_eq

/-- A body that gives back its target and arguments. -/
def echo (target : Option Value) (received : List Value) (_ : List Ty) : HostM σ Value :=
  return .list (.list target.toList :: received)

/-- An evaluation reaches the invocation if the receiver and as many of the arguments as there are parameters
for them come to values; what the call receives is made of these. -/
theorem invokes_iff {host host' : σ} {target : Option Value} {received : List Value} :
    Invokes bindings object callee args host target received host' ↔
      ∃ receiver middle values, object.evaluate bindings host = (.ok receiver, middle) ∧
        arguments bindings args callee.argumentParams middle = (.ok values, host') ∧
        (target, received) = callee.passes receiver values := by
  constructor
  · intro h
    -- A body that gives back what it received shows what that was.
    have hecho := h echo
    have hok : (Answer.value <$> HostM.callFor callee.name (echo target received callee.typeArgs))
        host' = (.ok (.value (.list (.list target.toList :: received))), host') := rfl
    rw [hok, answer_method] at hecho
    obtain ⟨receiver, middle, hobject, hecho⟩ := bind_eq_ok.1 hecho
    obtain ⟨values, middle', hargs, hecho⟩ := bind_eq_ok.1 hecho
    obtain ⟨v, middle'', hcall, hecho⟩ := bind_eq_ok.1 hecho
    rw [Method.callOn_withBody] at hcall
    cases hecho
    obtain ⟨hresult, rfl⟩ := Prod.mk.inj hcall
    obtain ⟨htarget, hreceived⟩ := List.cons.inj (Value.list.inj (Except.ok.inj hresult))
    have htarget := congrArg List.head? (Value.list.inj htarget)
    rw [Option.head?_toList, Option.head?_toList] at htarget
    exact ⟨receiver, middle, values, hobject, hargs, Prod.ext htarget.symm hreceived.symm⟩
  · rintro ⟨receiver, middle, values, hobject, hargs, hpasses⟩ body
    have hargs : arguments bindings args (callee.withBody body).argumentParams middle =
        (.ok values, host') := hargs
    rw [answer_method, bind_of_ok hobject, bind_of_ok hargs, Method.callOn_withBody, ← hpasses]
    rfl

/-- An evaluation of the call reaches the invocation, or fails before it, whatever the body. -/
theorem invokes_or_fails (bindings : Names Value) (object : Expr σ) (callee : Method σ)
    (args : List (Expr σ)) (host : σ) :
    (∃ target received host', Invokes bindings object callee args host target received host') ∨
      ∃ e host', ∀ body, (method object (callee.withBody body) args).answer bindings host =
        (.error e, host') := by
  rcases hobject : object.evaluate bindings host with ⟨e | receiver, middle⟩
  · refine .inr ⟨e, middle, fun body => ?_⟩
    rw [answer_method, bind_of_error hobject]
  · rcases hargs : arguments bindings args callee.argumentParams middle with ⟨e | values, host'⟩
    · refine .inr ⟨e, host', fun body => ?_⟩
      have hargs : arguments bindings args (callee.withBody body).argumentParams middle =
          (.error e, host') := hargs
      rw [answer_method, bind_of_ok hobject, bind_of_error hargs]
    · exact .inl ⟨_, _, host', invokes_iff.2 ⟨receiver, middle, values, hobject, hargs, rfl⟩⟩

/-- What a call receives comes from its receiver and from as many of its arguments as there are
parameters for them. -/
theorem Invokes.received_eq {host host' : σ} {target : Option Value} {received : List Value}
    (h : Invokes bindings object callee args host target received host') :
    ∃ receiver middle values, object.evaluate bindings host = (.ok receiver, middle) ∧
      arguments bindings args callee.argumentParams middle = (.ok values, host') ∧
      received = if callee.isExtension then receiver :: values else values := by
  obtain ⟨receiver, middle, values, hobject, hargs, hpasses⟩ := invokes_iff.1 h
  have hreceived := congrArg Prod.snd hpasses
  exact ⟨receiver, middle, values, hobject, hargs, hreceived.trans (callee.snd_passes receiver values)⟩

/-- A call of a method that takes as many arguments as the call has receives all of them. -/
theorem Invokes.receivesAll {host host' : σ} {target : Option Value} {received : List Value}
    (h : Invokes bindings object callee args host target received host')
    (hlength : callee.argumentParams.length = args.length) :
    ReceivesAll bindings object callee args host received host' := by
  obtain ⟨receiver, middle, values, hobject, hargs, hreceived⟩ := h.received_eq
  have hvalues := evaluateInOrder_of_arguments hargs
  rw [hlength, List.take_length] at hvalues
  refine ⟨receiver, middle, values, hobject, hvalues.mono ?_, hreceived⟩
  unfold Method.argumentParams
  split
  · exact List.drop_subset ..
  · exact List.Subset.refl _

end Expr

end HostExpr
