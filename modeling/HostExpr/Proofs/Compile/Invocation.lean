-- SUMMARY: Which arguments the body of a method receives, by the way in which the method was chosen.
import HostExpr.Proofs.Compile.Trees
import HostExpr.Proofs.Expr.Invocation

/-!
# Arguments of methods

A method that a call means has as many parameters as the call has arguments, or it is an extension of
the containing type with one more. In the second case, and in the first if the method is no extension,
its body receives all arguments. An extension method on the very type that declares it is found with as
many parameters as arguments, and then the receiver takes the place of the last argument.
-/

namespace HostExpr

variable {σ : Type} {s : Session σ}

/-- The parameters of a method that a call means match the arguments, with the receiver before them if
the method was found as an extension. -/
theorem Session.Resolves.params_length {ty : Ty} {callee : Method σ} {args : List Ty}
    (h : s.Resolves ty callee args) :
    callee.params.length = args.length ∨
      callee.isExtension ∧ callee.params.length = args.length + 1 := by
  rcases h with ⟨name, hresolve⟩ | ⟨name, typeArgs, pattern, hresolve, rfl⟩
  · rcases Overload.mem_of_resolve hresolve with hdeclared | hextension
    · exact .inl (Overload.mem_declared.1 hdeclared).2.2
    · obtain ⟨-, hextension, -, hlength, -⟩ := Overload.mem_extensions.1 hextension
      exact .inr ⟨hextension, hlength⟩
  · obtain ⟨-, -, -, hlength⟩ := Overload.mem_generics.1 (Overload.mem_of_resolveGeneric hresolve)
    refine .inl ?_
    show (pattern.params.map _).length = args.length
    rw [List.length_map, hlength]

/-- A method takes as many arguments as the call has, unless it is an extension method with no parameter
for the receiver. -/
theorem Session.Resolves.length_argumentParams {ty : Ty} {callee : Method σ} {args : List Ty}
    (h : s.Resolves ty callee args)
    (hreceiver : ¬ (callee.isExtension ∧ callee.params.length = args.length)) :
    callee.argumentParams.length = args.length := by
  unfold Method.argumentParams
  split
  · rename_i hextension
    have hmore := h.params_length.resolve_left fun hsame => hreceiver ⟨hextension, hsame⟩
    rw [List.length_drop, hmore.2, Nat.add_sub_cancel]
  · rename_i hextension
    exact h.params_length.resolve_right fun hmore => hextension hmore.1

/-- The body of a method receives as many values as it has parameters, and all arguments are among them,
except for an extension method with no parameter for the receiver. An extension method is such a one
unless it extends the containing type and has a parameter more than the call has arguments. -/
theorem Session.receives_all_iff (s : Session σ) :
    (∀ source c, (s.compile source).value = .ok c → ∀ object callee args,
      c.root.IsNode (.method object callee args) → ∀ bindings host target received host',
      Expr.Invokes bindings object callee args host target received host' →
      (received.length = callee.params.length ∧
          Expr.ReceivesAll bindings object callee args host received host' ↔
        ¬ (callee.isExtension ∧ callee.params.length = args.length))) ∧
    ∀ ty name args callee,
      (Overload.resolve s.catalog s.helpers ty name args).value = .ok callee → callee.isExtension →
      (callee.params.head? = some ty ∧ callee.params.length = args.length + 1 ↔
        ¬ callee.params.length = args.length) := by
  constructor
  · intro source c hcompile object callee args hnode bindings host target received host' hinvokes
    obtain ⟨-, hresolves⟩ : s.Builds (.method object callee args) :=
      builds_of_compile hcompile _ hnode
    have hlength := hresolves.params_length
    have hargs := hresolves.length_argumentParams
    rw [List.length_map] at hlength hargs
    constructor
    · rintro ⟨hreceived, hall⟩ ⟨hextension, hsame⟩
      have hvalues := hall.length_eq
      rw [if_pos hextension] at hvalues
      omega
    · intro hreceiver
      have hall := hinvokes.receivesAll (hargs hreceiver)
      refine ⟨?_, hall⟩
      rw [hall.length_eq]
      split
      · rename_i hextension
        exact (hlength.resolve_left fun hsame => hreceiver ⟨hextension, hsame⟩).2.symm
      · rename_i hextension
        exact (hlength.resolve_right fun hmore => hextension hmore.1).symm
  · intro ty name args callee hresolve hextension
    rcases Overload.mem_of_resolve hresolve with hdeclared | hextends
    · have hlength := (Overload.mem_declared.1 hdeclared).2.2
      omega
    · obtain ⟨-, -, -, hlength, hhead⟩ := Overload.mem_extensions.1 hextends
      refine ⟨fun _ => ?_, fun _ => ⟨hhead, hlength⟩⟩
      omega

/-! ## An extension of its own type -/

/-- A method that extends texts, with one argument or two. -/
def Method.pad (more : List Ty) : Method Unit :=
  .extension "Pad" (.string :: .string :: more) .string fun args => return .list args

/-- The session in which the methods are declared on texts, and texts are a helper type. -/
def Session.padded : Session Unit :=
  (Session.ofCatalog (((∅ : Catalog Unit).addMethod .string (.pad [])).addMethod .string
    (.pad [.string]))).addHelper .string

theorem Session.receives_all_pad_once :
    (Expr.ReceivesAll ∅ (.string "a") (.pad []) [.string "b"] () [.string "a", .string "b"] ()) ∧
      (Method.pad []).params.head? = some .string := by
  obtain ⟨hcalls, hresolve⟩ := receives_all_iff padded
  have hcompile : (padded.compile "'a'.Pad('b')").value =
      .ok ⟨"'a'.Pad('b')", .method (.string "a") (.pad []) [.string "b"]⟩ := by
    with_unfolding_all rfl
  have hinvokes : Expr.Invokes ∅ (.string "a") (.pad []) [.string "b"] () none
      [.string "a", .string "b"] () :=
    fun _ => rfl
  refine ⟨?_, ?_⟩
  · exact ((hcalls _ _ hcompile _ _ _ .root _ _ _ _ _ hinvokes).2 (by decide)).2
  · exact ((hresolve .string "Pad" [.string] (.pad []) rfl rfl).2 (by decide)).1

/-- The last of two arguments is lost, as the first method with two parameters is taken. -/
theorem Session.not_receives_all_pad_twice :
    ¬ ∀ source c, (padded.compile source).value = .ok c → ∀ object callee args,
      c.root.IsNode (.method object callee args) → ∀ bindings host target received host',
      Expr.Invokes bindings object callee args host target received host' →
      received.length = callee.params.length ∧
        Expr.ReceivesAll bindings object callee args host received host' := by
  intro hclaim
  have hcompile : (padded.compile "'a'.Pad('b', 'c')").value =
      .ok ⟨"'a'.Pad('b', 'c')", .method (.string "a") (.pad []) [.string "b", .string "c"]⟩ := by
    with_unfolding_all rfl
  have hinvokes : Expr.Invokes ∅ (.string "a") (.pad []) [.string "b", .string "c"] () none
      [.string "a", .string "b"] () :=
    fun _ => rfl
  obtain ⟨-, receiver, middle, values, -, hvalues, hreceived⟩ :=
    hclaim _ _ hcompile _ _ _ .root _ _ _ _ _ hinvokes
  have hreceived : [Value.string "a", .string "b"] = receiver :: values := hreceived
  cases hreceived
  cases hvalues.length_eq

end HostExpr
