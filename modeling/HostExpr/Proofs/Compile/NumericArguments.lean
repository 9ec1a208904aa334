-- SUMMARY: Which values a method receives for its numeric parameters.
import HostExpr.Proofs.Compile.Invocation
import HostExpr.Proofs.Compile.WellFormed
import HostExpr.Proofs.Expr.TypeSoundness

/-!
# Numeric parameters

A numeric parameter accepts arguments of every numeric type, since an argument is brought to the type of
its parameter before the call: the body gets a number of the very kind, or a value of the very enumeration.
That holds of every argument with a value. The name of a type is accepted by the type that it names, but it
has no value, and the body gets the absent one.
-/

namespace HostExpr

variable {σ : Type} {s : Session σ}

/-! ## Values of numeric arguments -/

theorem Value.not_inhabits_null {ty : Ty} (h : ty.isNumeric) : ¬ Value.null.Inhabits ty := by
  cases ty with
  | number kind =>
    rintro ⟨n, heq, -⟩
    cases heq
  | enum type =>
    rintro ⟨e, heq, -⟩
    cases heq
  | _ => cases h

/-- An answer that is an argument of a numeric expression is brought to the type of a numeric parameter. -/
theorem Answer.toArgument_inhabits {a : Answer} {param : Ty} {v : Value} (hparam : param.isNumeric)
    (h : a.toArgument true param = .ok v) : v.Inhabits param := by
  unfold toArgument at h
  rw [if_pos (by rw [hparam]; rfl)] at h
  cases hx : a.toNumber with
  | error e =>
    rw [hx] at h
    cases h
  | ok x =>
    rw [hx] at h
    cases h
    exact Value.ofDouble_inhabits hparam x

namespace Expr

variable {bindings : Names Value} {param : Ty} {host host' : σ} {v : Value}

theorem ComesTo.inhabits {e : Expr σ} (h : e.ComesTo bindings [param] host v host')
    (hparam : param.isNumeric) (he : e.isNumeric) : v.Inhabits param := by
  obtain ⟨a, -, param', hmem, hv⟩ := h
  cases List.mem_singleton.1 hmem
  rw [he] at hv
  exact Answer.toArgument_inhabits hparam hv

/-- The name of a type comes to the absent value, whatever the parameter. -/
theorem ComesTo.eq_null {name : String} {type : Ty}
    (h : (typeName name type : Expr σ).ComesTo bindings [param] host v host') : v = .null := by
  obtain ⟨a, hanswer, param', -, hv⟩ := h
  rw [answer] at hanswer
  cases hanswer
  have hvalue : isNumeric (typeName name type : Expr σ) = false := rfl
  rw [hvalue, Answer.toArgument, Bool.and_false] at hv
  cases hv
  rfl

end Expr

/-! ## Calls of methods -/

/-- A method that is neither generic nor an extension has a parameter for each argument and accepts it. -/
theorem Session.Resolves.accepts {ty : Ty} {callee : Method σ} {args : List Ty}
    (h : s.Resolves ty callee args) (hgeneric : callee.isGeneric = false)
    (hextension : callee.isExtension = false) :
    callee.params.length = args.length ∧ Overload.accepts callee.params args := by
  refine ⟨h.params_length.resolve_right fun hmore => ?_, ?_⟩
  · cases hextension.symm.trans hmore.1
  · rcases h with ⟨name, hresolve⟩ | ⟨name, typeArgs, pattern, hresolve, rfl⟩
    · exact Overload.accepts_of_resolve hresolve hextension
    · have hpattern := (Overload.mem_generics.1 (Overload.mem_of_resolveGeneric hresolve)).2.1
      have hsame : (pattern.instantiate typeArgs).isGeneric = pattern.isGeneric := rfl
      cases hgeneric.symm.trans (hsame.trans hpattern)

/-- What is accepted for a numeric parameter is numeric, unless it is the name of a type. -/
theorem Session.Builds.isNumeric_of_accepts {e : Expr σ} (h : s.Builds e)
    (hname : ∀ name type, e ≠ .typeName name type) {param : Ty} (hparam : param.isNumeric)
    (haccepts : param.accepts e.type) : e.isNumeric := by
  refine Expr.isNumeric_iff.2 ⟨h.formed.isTypeReference_eq_false hname, ?_⟩
  rcases Bool.or_eq_true_iff.1 haccepts with hsame | hboth
  · rw [← of_decide_eq_true hsame]
    exact hparam
  · exact (Bool.and_eq_true_iff.1 hboth).2

/-- For each numeric parameter of a method that is neither generic nor an extension, the body receives a
number of the very kind or a value of the very enumeration, unless the argument is the name of a type. -/
theorem Session.numeric_argument_inhabits_iff (s : Session σ) {source : String} {c : Compiled σ}
    (hcompile : (s.compile source).value = .ok c) {object : Expr σ} {callee : Method σ}
    {args : List (Expr σ)} (hnode : c.root.IsNode (.method object callee args))
    (hgeneric : callee.isGeneric = false) (hextension : callee.isExtension = false)
    {bindings : Names Value} {host host' : σ} {target : Option Value} {received : List Value}
    (hinvokes : Expr.Invokes bindings object callee args host target received host')
    {i : Nat} {param : Ty} (hparam : callee.params[i]? = some param) (hnumeric : param.isNumeric) :
    ∃ arg v, args[i]? = some arg ∧ received[i]? = some v ∧
      (v.Inhabits param ↔ ∀ name type, arg ≠ .typeName name type) := by
  have hbuilds := builds_of_compile hcompile
  obtain ⟨-, hresolves⟩ : s.Builds (.method object callee args) := hbuilds _ hnode
  obtain ⟨hlength, haccepts⟩ := hresolves.accepts hgeneric hextension
  rw [List.length_map] at hlength
  obtain ⟨receiver, middle, values, -, hargs, hreceived⟩ := hinvokes.received_eq
  rw [hextension] at hreceived
  have hreceived : received = values := hreceived
  have hargumentParams : callee.argumentParams = callee.params := by
    rw [Method.argumentParams, hextension]
    rfl
  rw [hargumentParams] at hargs
  have hi : i < args.length := by
    rw [← hlength]
    exact (List.getElem?_eq_some_iff.1 hparam).1
  have harg : args[i]? = some args[i] := List.getElem?_eq_getElem hi
  obtain ⟨v, hv, before, after, hcomes⟩ := Expr.arguments_getElem? hargs harg hparam
  refine ⟨args[i], v, harg, hreceived ▸ hv, fun hinhabits name type heq => ?_, fun hname => ?_⟩
  · rw [heq] at hcomes
    rw [hcomes.eq_null] at hinhabits
    exact Value.not_inhabits_null hnumeric hinhabits
  · have hbuild : s.Builds args[i] :=
      hbuilds _ (.child hnode (List.mem_cons_of_mem _ (List.getElem_mem hi)))
    have htype : (args.map Expr.type)[i]? = some args[i].type := by
      rw [List.getElem?_map, harg]
      rfl
    have hsingle := Overload.accepts_at haccepts hparam htype
    exact hcomes.inhabits hnumeric (hbuild.isNumeric_of_accepts hname hnumeric hsingle)

/-! ## The name of a type as an argument -/

/-- A method of texts that takes two integers. -/
def Method.slice : Method Unit :=
  .onInstance "Slice" [.int, .int] .string fun target _ => return target

/-- The session in which the method is declared on texts, with a double and an integer. -/
def Session.sliced : Session Unit :=
  ((Session.ofCatalog ((∅ : Catalog Unit).addMethod .string .slice)).addVariable "x"
    .double).addVariable "n" .int

/-- A double and an integer. -/
def Session.sliceBindings : Names Value :=
  (Names.empty.insert "x" (.number (.double 2.5))).insert "n" (.number (.ofInt .int 3))

theorem Session.numeric_argument_inhabits_slice :
    ∃ arg v, [Expr.var "x" .double, .var "n" .int][0]? = some (arg : Expr Unit) ∧
      [Value.ofDouble .int 2.5, .ofDouble .int (Number.ofInt .int 3).toDouble][0]? = some v ∧
        (v.Inhabits .int ↔ ∀ name type, arg ≠ .typeName name type) := by
  have hcompile : (sliced.compile "'a'.Slice(x, n)").value =
      .ok ⟨"'a'.Slice(x, n)", .method (.string "a") .slice [.var "x" .double, .var "n" .int]⟩ := by
    with_unfolding_all rfl
  have hinvokes : Expr.Invokes sliceBindings (.string "a") .slice [.var "x" .double, .var "n" .int] ()
      (some (.string "a"))
      [.ofDouble .int 2.5, .ofDouble .int (Number.ofInt .int 3).toDouble] () :=
    fun _ => rfl
  exact numeric_argument_inhabits_iff sliced hcompile .root rfl rfl hinvokes rfl rfl

/-- A type is passed for an integer by its name, and the body receives the absent value. -/
theorem Session.not_numeric_argument_inhabits_type :
    ¬ ∀ source c, (sliced.compile source).value = .ok c → ∀ object callee args,
      c.root.IsNode (.method object callee args) → callee.isGeneric = false →
      callee.isExtension = false → ∀ bindings host target received host',
      Expr.Invokes bindings object callee args host target received host' →
      ∀ (i : Nat) (param : Ty), callee.params[i]? = some param → param.isNumeric →
      ∃ v : Value, received[i]? = some v ∧ v.Inhabits param := by
  intro hclaim
  have hcompile : (sliced.compile "'a'.Slice(int, n)").value =
      .ok ⟨"'a'.Slice(int, n)",
        .method (.string "a") .slice [.typeName "int" .int, .var "n" .int]⟩ := by
    with_unfolding_all rfl
  have hinvokes : Expr.Invokes sliceBindings (.string "a") .slice
      [.typeName "int" .int, .var "n" .int] () (some (.string "a"))
      [.null, .ofDouble .int (Number.ofInt .int 3).toDouble] () :=
    fun _ => rfl
  obtain ⟨v, hv, hinhabits⟩ :=
    hclaim _ _ hcompile _ _ _ .root rfl rfl _ _ _ _ _ hinvokes 0 .int rfl rfl
  cases hv
  exact Value.not_inhabits_null rfl hinhabits

end HostExpr
