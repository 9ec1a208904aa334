-- SUMMARY: What a text compiles to evaluates to a value of its type.
import HostExpr.Proofs.Compile.WellFormed
import HostExpr.Proofs.Expr.TypeSoundness
import HostExpr.Proofs.Expr.Watch

/-!
# Type soundness of compiled expressions

The host is trusted call by call: in the evaluation at hand, each call on it that returns a value returns
one of the type that was declared. The log of the watched tree says which calls these are.
-/

namespace HostExpr

variable {σ : Type}

/-! ## Trusted calls -/

/-- A call that returned a value returned one of the declared type. -/
def Entry.KeepsTo (entry : Entry) : Prop :=
  ∀ v, entry.result = .ok v → v.Inhabits entry.declared

/-- The callee is a member that its type has without a declaration. -/
def Callee.IsIntrinsic (catalog : Catalog σ) : Callee → Prop
  | member object name => ∀ m ∈ (catalog.definition object).members, m.name ≠ name
  | _ => False

/-- Every call so far on what is declared returned a value of the declared type, if it returned one. -/
def Watched.KeepsTo (catalog : Catalog σ) (w : Watched σ) : Prop :=
  ∀ entry ∈ w.entries, ¬ entry.callee.IsIntrinsic catalog → entry.KeepsTo

/-- A watched action keeps to the type that its entries declare, as long as the log does. -/
theorem HostM.keepsTo_watch {catalog : Catalog σ} {place : List Nat} {callee : Callee}
    {target : Option Value} {args : List Value} {typeArgs : List Ty} {ty : Ty}
    (action : HostM σ Value)
    (hcallee : callee.IsIntrinsic catalog →
      ∀ host v, (action host).1 = .ok v → v.Inhabits ty) :
    HostM.KeepsTo (Watched.KeepsTo catalog) ty
      (action.watch (.mk place callee target args typeArgs ty)) := by
  intro w hlog
  refine ⟨fun entry hentry => hlog entry (List.mem_append_left _ hentry), fun v hv => ?_⟩
  by_cases hintrinsic : callee.IsIntrinsic catalog
  · exact hcallee hintrinsic w.host v hv
  · exact hlog _ (List.mem_append_right _ (List.mem_singleton_self _)) hintrinsic v hv

namespace Catalog

/-- The members that need no declaration come to a value of their type or fail. -/
theorem inhabits_of_intrinsic {ty : Ty} {name : String} {m : Member σ}
    (h : intrinsic? ty name = some m) {target : Option Value} {host : σ} {v : Value}
    (hv : (m.read target host).1 = .ok v) : v.Inhabits m.type := by
  unfold intrinsic? at h
  split at h
  · split at h <;> cases h
    cases target with
    | none => cases hv
    | some target =>
      change (target.toList.mapError EvalError.message).map _ = .ok v at hv
      revert hv
      cases target.toList <;> rintro ⟨⟩
      exact ⟨_, rfl, rfl⟩
  · split at h <;> cases h
    cases target with
    | none => cases hv
    | some target =>
      change (target.toText.mapError EvalError.message).map _ = .ok v at hv
      revert hv
      cases target.toText <;> rintro ⟨⟩
      exact ⟨_, rfl, rfl⟩
  · cases h

/-- A member that is not declared under its name is one that needs no declaration. -/
theorem intrinsic_of_mem_members {c : Catalog σ} {ty : Ty} {name : String} {m : Member σ}
    (h : m ∈ c.members ty name)
    (hnone : ∀ declared ∈ (c.definition ty).members, declared.name ≠ m.name) :
    intrinsic? ty name = some m := by
  rcases List.mem_append.1 h with hdeclared | hintrinsic
  · exact absurd rfl (hnone m (List.mem_filter.1 hdeclared).1)
  · exact Option.mem_toList.1 hintrinsic

end Catalog

namespace Expr

/-! ## Watched nodes -/

/-- The calls of a watched node keep to their types by the log, and those that are not judged by it are
reads of members that need no declaration. -/
theorem honest_watch {s : Session σ} {e : Expr σ} (h : s.Builds e) (place : List Nat) :
    (e.watch place).Honest (Watched.KeepsTo s.catalog) := by
  cases e with
  | call callee args =>
    intro args
    exact HostM.keepsTo_watch _ nofun
  | property object member =>
    intro target
    obtain ⟨-, name, others, hmembers⟩ := h
    refine HostM.keepsTo_watch _ fun hnone host v hv => ?_
    have hmember : member ∈ s.catalog.members object.type name :=
      hmembers ▸ List.mem_cons_self ..
    exact Catalog.inhabits_of_intrinsic (Catalog.intrinsic_of_mem_members hmember hnone) hv
  | method object callee args =>
    intro target args
    exact HostM.keepsTo_watch _ nofun
  | _ => trivial

theorem length_watchAll (place : List Nat) (position : Nat) (es : List (Expr σ)) :
    (watchAll place position es).length = es.length := by
  induction es generalizing position with
  | nil => rfl
  | cons e es ih => exact congrArg (· + 1) (ih _)

theorem Formed.watch {e : Expr σ} (h : e.Formed) (place : List Nat) : (e.watch place).Formed := by
  cases e with
  | bool | number | string | enum | var | typeName | convert => trivial
  | castTarget => exact h
  | call callee args => exact (length_watchAll place 0 args).trans h
  | method object callee args =>
    obtain ⟨hvoid, hslots⟩ := h
    refine ⟨?_, hslots⟩
    rw [type_watch]
    exact hvoid
  | property | logicalUnary | logical | arithmeticUnary | arithmetic | comparison
  | conditional | element =>
    simpa only [Expr.watch, Formed, type_watch, isNumeric_watch, isBoolean_watch] using h

theorem operands_watch (e : Expr σ) (place : List Nat) :
    ∃ position, (e.watch place).operands = watchAll place position e.operands := by
  cases e with
  | method => exact ⟨1, rfl⟩
  | _ => exact ⟨0, rfl⟩

theorem Plain.watch {e : Expr σ} (h : e.Plain) (place : List Nat) : (e.watch place).Plain := by
  obtain ⟨hlist, hoperands⟩ := h
  refine ⟨fun element operand heq => ?_, fun operand hmem name type heq => ?_⟩
  · cases e with
    | convert type operand' =>
      cases heq
      exact hlist element operand' rfl
    | _ => cases heq
  · obtain ⟨position, hposition⟩ := operands_watch e place
    rw [hposition] at hmem
    obtain ⟨operand', hmem', place', rfl⟩ := mem_watchAll hmem
    cases operand' with
    | typeName name' type' => exact hoperands _ hmem' name' type' rfl
    | _ => cases heq

theorem BoundIn.watch {bindings : Names Value} {e : Expr σ} (h : e.BoundIn bindings)
    (place : List Nat) : (e.watch place).BoundIn bindings := by
  cases e with
  | var => exact h
  | _ => trivial

/-- What is assumed of a tree holds of the watched one, whose calls keep to their types by the log. -/
theorem Sound.watch {s : Session σ} {bindings : Names Value} {e : Expr σ} (hbuilds : s.Builds e)
    (hplain : e.Plain) (hbound : e.BoundIn bindings) (place : List Nat) :
    (e.watch place).Sound (Watched.KeepsTo s.catalog) bindings where
  formed := hbuilds.formed.watch place
  plain := hplain.watch place
  bound := hbound.watch place
  honest := honest_watch hbuilds place

/-! ## Values of watched trees -/

/-- The value of a tree and its answer leave the same state. -/
theorem evaluate_snd (e : Expr σ) (bindings : Names Value) (host : σ) :
    (e.evaluate bindings host).2 = (e.answer bindings host).2 := by
  unfold evaluate
  rw [EvalM.bind_apply]
  rcases e.answer bindings host with ⟨result, host'⟩
  cases result <;> rfl

/-- Watching does not change the value of a tree. -/
theorem evaluate_watch_fst (e : Expr σ) (bindings : Names Value) (host : σ) :
    ((e.watch []).evaluate bindings ⟨host, []⟩).1 = (e.evaluate bindings host).1 := by
  rw [logs_evaluate (logs_answer e []) ⟨host, []⟩]

end Expr

/-! ## Soundness -/

/-- Evaluating what a text compiles to gives a value of its type, or fails with a conversion, a call on
the host or an index. It is assumed that nothing is cast to a list type, that type names stand before
points only, that every variable is bound to a value of its type, and that every call in this evaluation
on what the host declares returns a value of the declared type if it returns one. -/
theorem Session.evaluate_sound {s : Session σ} {source : String} {c : Compiled σ}
    (h : (s.compile source).value = .ok c) (hroot : ∀ name type, c.root ≠ .typeName name type)
    (hplain : c.root.Everywhere Expr.Plain) {bindings : Names Value}
    (hbound : c.root.Everywhere (Expr.BoundIn bindings)) {host : σ}
    (hhost : ∀ entry ∈ c.root.entries bindings host,
      ¬ entry.callee.IsIntrinsic s.catalog → entry.KeepsTo) :
    (∀ v, (c.evaluate bindings host).value.1 = .ok v → v.Inhabits c.type) ∧
      ∀ e, (c.evaluate bindings host).value.1 = .error e → e.IsDynamic := by
  have hbuilds : c.root.Everywhere s.Builds := builds_of_compile h
  have hall : c.root.Everywhere fun node => s.Builds node ∧ node.Plain ∧ node.BoundIn bindings :=
    fun node hnode => ⟨hbuilds node hnode, hplain node hnode, hbound node hnode⟩
  have hsound : (c.root.watch []).Everywhere (Expr.Sound (Watched.KeepsTo s.catalog) bindings) :=
    hall.watch (fun node place ⟨hbuilds, hplain, hbound⟩ => .watch hbuilds hplain hbound place) []
  have hvalue : (c.root.watch []).isTypeReference = false := by
    rw [Expr.isTypeReference_watch]
    exact hbuilds.here.formed.isTypeReference_eq_false hroot
  have hends : EvalM.Ends (Watched.KeepsTo s.catalog) True ((c.root.watch []).evaluate bindings)
      (fun v => v.Inhabits c.type) EvalError.IsDynamic := by
    refine .bind (Expr.answer_ends hsound) fun a => .pure fun ⟨_, ha⟩ => ?_
    have hinhabits := ha hvalue
    rw [Expr.type_watch] at hinhabits
    exact hinhabits
  have hlog : Watched.KeepsTo s.catalog ((c.root.watch []).evaluate bindings ⟨host, []⟩).2 := by
    rw [Expr.evaluate_snd]
    exact hhost
  have houtcome := (hends ⟨host, []⟩ hlog).2 trivial
  rw [Expr.evaluate_watch_fst] at houtcome
  show (∀ v, (c.root.evaluate bindings host).1 = .ok v → _) ∧
    ∀ e, (c.root.evaluate bindings host).1 = .error e → _
  cases hresult : (c.root.evaluate bindings host).1 with
  | ok v =>
    rw [hresult] at houtcome
    exact ⟨fun v' heq => by cases heq; exact houtcome, nofun⟩
  | error e =>
    rw [hresult] at houtcome
    exact ⟨nofun, fun e' heq => by cases heq; exact houtcome⟩

/-- A function of one truth value, which it inverts. -/
def HostFunction.flip : HostFunction Unit where
  name := "flip"
  params := [.bool]
  returns := .bool
  call
    | [.bool b] => return .bool !b
    | _ => throw "a truth value is required"

theorem Session.evaluate_flip_sound :
    ∃ c, (((Session.new.addVariable "b" .bool).addFunction .flip).compile "flip(b)").value = .ok c ∧
      (∀ v, (c.evaluate (Names.empty.insert "b" (.bool true)) ()).value.1 = .ok v →
        v.Inhabits c.type) ∧
      ∀ e, (c.evaluate (Names.empty.insert "b" (.bool true)) ()).value.1 = .error e →
        e.IsDynamic := by
  have hcompile :
      (((Session.new.addVariable "b" .bool).addFunction .flip).compile "flip(b)").value =
        .ok ⟨"flip(b)", .call .flip [.var "b" .bool]⟩ := by
    with_unfolding_all rfl
  have hplain : (Expr.call .flip [.var "b" .bool]).Everywhere Expr.Plain := by
    refine Expr.everywhere_iff.2 ⟨⟨nofun, List.forall_mem_cons.2 ⟨nofun, nofun⟩⟩, ?_⟩
    exact List.forall_mem_cons.2 ⟨Expr.everywhere_iff.2 ⟨⟨nofun, nofun⟩, nofun⟩, nofun⟩
  have hbound : (Expr.call .flip [.var "b" .bool]).Everywhere
      (Expr.BoundIn (Names.empty.insert "b" (.bool true))) := by
    refine Expr.everywhere_iff.2 ⟨trivial, List.forall_mem_cons.2 ⟨?_, nofun⟩⟩
    exact Expr.everywhere_iff.2 ⟨⟨_, Names.find?_insert_self _ _ _, _, rfl⟩, nofun⟩
  refine ⟨_, hcompile, evaluate_sound hcompile nofun hplain hbound ?_⟩
  intro entry hentry _ v hv
  cases List.mem_singleton.1 hentry
  cases hv
  exact ⟨_, rfl⟩

end HostExpr
