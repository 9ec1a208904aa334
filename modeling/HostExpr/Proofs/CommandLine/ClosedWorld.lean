-- SUMMARY: What evaluating with bindings of the command line can come to.
import HostExpr.CommandLine
import HostExpr.Proofs.Names
import HostExpr.Proofs.Compile.WellFormed
import HostExpr.Proofs.Compile.TypeSoundness

/-!
# The closed world of the command line

On the command line nothing is declared but variables, each bound to a value of its type (`Closed`): this
holds before any binding, and a binding keeps it, also one that replaces an earlier one or takes the name
of a type. No type there is a list, so nothing is indexed, and the only calls on the host are those of the
prelude and of the length of a text. So an evaluation can fail with a conversion or a call, and no more.

The name of a type can be an argument, an operand of a cast or the whole expression. It comes to the
absent value, which no arithmetic and no condition takes, as the name does not play their roles.
-/

namespace HostExpr

/-! ## Types that are no lists -/

/-- The type is no list type. -/
def Ty.Unlisted (ty : Ty) : Prop := ∀ element, ty ≠ .list element

theorem Ty.unlisted_of_isNumeric {ty : Ty} (h : ty.isNumeric) : ty.Unlisted := by
  rintro element rfl
  cases h

/-- No keyword names a list type. -/
theorem Session.unlisted_of_keywords {name : String} {ty : Ty} (h : keywords.find? name = some ty) :
    ty.Unlisted := by
  rcases Names.mem_of_find?_insertAll h with hmem | hnone
  · simp only [NumberKind.all, List.map_cons, List.map_nil, List.mem_cons, Prod.mk.injEq,
      List.not_mem_nil, or_false] at hmem
    rcases hmem with h | h | h | h | h | h | h | h | h | h | h | h <;> cases h.2 <;> exact nofun
  · cases hnone

/-! ## The prelude -/

namespace Prelude

variable {σ : Type} {I : σ → Prop}

/-- A function of doubles comes to a double or fails, and leaves the host alone. -/
theorem keepsTo_ofDoubles (name : String) (arity : Nat)
    (f : (Nat → Except String Float) → Except String Float) (args : List Value) :
    HostM.KeepsTo I .double ((ofDoubles name arity f : HostFunction σ).call args) := by
  intro host hI
  refine ⟨hI, fun v hv => ?_⟩
  change (f (argument args)).map _ = .ok v at hv
  revert hv
  cases f (argument args) <;> rintro ⟨⟩
  exact ⟨_, rfl, rfl⟩

theorem exists_ofDoubles {callee : HostFunction σ} (h : callee ∈ functions) :
    ∃ name arity f, callee = ofDoubles name arity f := by
  simp only [functions, List.mem_cons, List.not_mem_nil, or_false] at h
  rcases h with h | h | h | h | h | h | h | h | h | h <;> exact ⟨_, _, _, h⟩

end Prelude

/-- The members that need no declaration are numbers. -/
theorem Catalog.unlisted_of_intrinsic {σ : Type} {ty : Ty} {name : String} {member : Member σ}
    (h : intrinsic? ty name = some member) : member.type.Unlisted := by
  unfold intrinsic? at h
  split at h
  · split at h <;> cases h
    exact nofun
  · split at h <;> cases h
    exact nofun
  · cases h

namespace CommandLine

/-! ## Bindings -/

/-- Only variables are declared besides what there is before any binding, and each is bound to a value of
its type, which is no list type. -/
structure Workspace.Closed (w : Workspace) : Prop where
  declares : w.session = Workspace.new.session.withVars w.session.vars
  binds : ∀ {name type}, w.session.vars.find? name = some type →
    type.Unlisted ∧ ∃ v, w.values.find? name = some v ∧ v.Inhabits type

namespace Workspace

theorem closed_new : new.Closed := ⟨new.session.withVars_self.symm, nofun⟩

variable {w w' : Workspace}

/-- A binding declares a variable of a type that has a name, and binds it to the converted text. -/
theorem bind_cases {binding : String} (h : w.bind binding = .ok w') :
    ∃ name typeName value type v, w.session.types.find? typeName = some type ∧
      convert (.string value) type = .ok v ∧
        w' = ⟨w.session.addVariable name type, w.values.insert name v⟩ := by
  unfold bind at h
  split at h
  · cases h
  · split at h
    · cases h
    · dsimp only at h
      split at h
      · cases h
      · split at h
        · cases h
        · cases h
          exact ⟨_, _, _, _, _, ‹_›, ‹_›, rfl⟩

/-- A binding declares and binds the same name, whatever the name meant before. -/
theorem Closed.bind (hw : w.Closed) {binding : String} (h : w.bind binding = .ok w') : w'.Closed := by
  obtain ⟨name, typeName, value, type, v, htype, hconvert, rfl⟩ := bind_cases h
  have hunlisted : type.Unlisted := by
    rw [hw.declares] at htype
    exact Session.unlisted_of_keywords htype
  refine ⟨Session.addVariable_eq_withVars hw.declares name type, fun {name' type'} hfind => ?_⟩
  by_cases hname : name' = name
  · subst hname
    have htype' : some type = some type' := (Names.find?_insert_self ..).symm.trans hfind
    cases htype'
    exact ⟨hunlisted, v, Names.find?_insert_self .., convert_inhabits hconvert hunlisted⟩
  · have hfind' := (Names.find?_insert_of_ne _ _ hname).symm.trans hfind
    obtain ⟨hunlisted', v', hv', hinhabits⟩ := hw.binds hfind'
    exact ⟨hunlisted', v', (Names.find?_insert_of_ne _ _ hname).trans hv', hinhabits⟩

theorem Closed.bindAll {bindings : List String} (hw : w.Closed) (h : w.bindAll bindings = .ok w') :
    w'.Closed := by
  induction bindings generalizing w with
  | nil =>
    cases h
    exact hw
  | cons binding bindings ih =>
    have h : (w.bind binding >>= fun w => w.bindAll bindings) = .ok w' := h
    cases hbind : w.bind binding with
    | error e =>
      rw [hbind] at h
      cases h
    | ok middle =>
      rw [hbind] at h
      exact ih (hw.bind hbind) h

/-! ## Trees -/

namespace Closed

variable {e : Expr Unit}

theorem types (hw : w.Closed) : w.session.types = Session.keywords := by rw [hw.declares]; rfl

theorem catalog (hw : w.Closed) : w.session.catalog = ∅ := by rw [hw.declares]; rfl

/-- Every callable function is one of the prelude. -/
theorem mem_prelude (hw : w.Closed) {name : String} {callee : HostFunction Unit}
    (h : w.session.functions.find? name = some callee) : callee ∈ Prelude.functions := by
  have hfunctions : w.session.functions =
      Names.empty.insertAll (Prelude.functions.map fun f => (f.name, f)) := by
    rw [hw.declares]
    rfl
  rw [hfunctions] at h
  rcases Names.mem_of_find?_insertAll h with hmem | hnone
  · obtain ⟨f, hf, heq⟩ := List.mem_map.1 hmem
    cases heq
    exact hf
  · cases hnone

/-- Every member is one that its type has without a declaration. -/
theorem intrinsic (hw : w.Closed) {ty : Ty} {name : String} {member : Member Unit}
    {others : List (Member Unit)} (h : w.session.catalog.members ty name = member :: others) :
    Catalog.intrinsic? ty name = some member := by
  have hmembers : w.session.catalog.members ty name = (Catalog.intrinsic? ty name).toList := by
    rw [hw.catalog]
    rfl
  have hmem : member ∈ w.session.catalog.members ty name := h ▸ List.mem_cons_self ..
  exact Option.mem_toList.1 (hmembers ▸ hmem)

/-- No call means a method. -/
theorem not_resolves (hw : w.Closed) {ty : Ty} {callee : Method Unit} {args : List Ty} :
    ¬ w.session.Resolves ty callee args := by
  have hnone : ∀ (owner : Ty) (name : String) (m : Method Unit),
      m ∉ w.session.catalog.methods owner name := by
    rw [hw.catalog]
    exact fun _ _ _ => List.not_mem_nil
  rintro (⟨name, h⟩ | ⟨name, typeArgs, pattern, h, -⟩)
  · rcases Overload.mem_of_resolve h with hdeclared | hextension
    · exact hnone _ _ _ (Overload.mem_declared.1 hdeclared).1
    · obtain ⟨⟨helper, -, hmem⟩, -⟩ := Overload.mem_extensions.1 hextension
      exact hnone _ _ _ hmem
  · exact hnone _ _ _ (Overload.mem_generics.1 (Overload.mem_of_resolveGeneric h)).1

/-- No node of a compiled tree has a list type. By induction on the tree, for an element is one of a list
below it. -/
theorem unlisted_type (hw : w.Closed) (h : e.Everywhere w.session.Builds) : e.type.Unlisted := by
  induction e with
  | bool | string | number | enum | comparison | logicalUnary | logical | conditional => exact nofun
  | arithmeticUnary op operand type =>
    obtain ⟨-, hnum, rfl⟩ := h.here
    exact Ty.unlisted_of_isNumeric (Expr.isNumeric_iff.1 hnum).2
  | arithmetic op left right type =>
    obtain ⟨-, hnum, -, rfl⟩ := h.here
    exact Ty.unlisted_of_isNumeric (Ty.isNumeric_promote (Expr.isNumeric_iff.1 hnum).2)
  | var name type => exact (hw.binds h.here).1
  | typeName name type => exact Session.unlisted_of_keywords (hw.types ▸ h.here.2)
  | castTarget type => exact h.here.elim
  | convert type operand =>
    obtain ⟨⟨name, htype⟩, -⟩ := h.here
    exact Session.unlisted_of_keywords (hw.types ▸ htype)
  | call callee args =>
    obtain ⟨⟨name, hcallee⟩, -⟩ := h.here
    obtain ⟨_, _, _, rfl⟩ := Prelude.exists_ofDoubles (hw.mem_prelude hcallee)
    exact nofun
  | property object member =>
    obtain ⟨-, name, others, hmembers⟩ := h.here
    exact Catalog.unlisted_of_intrinsic (hw.intrinsic hmembers)
  | method object callee args => exact (hw.not_resolves h.here.2).elim
  | element list index type ihl =>
    exact absurd h.here.1 (ihl (h.first rfl) type)

/-- Every node of a compiled tree has what its evaluation needs. -/
theorem steady (hw : w.Closed) (h : e.Everywhere w.session.Builds) :
    e.Steady (fun _ => True) EvalError.IsForeign w.values where
  formed := h.here.formed
  unlisted := by
    rintro element operand rfl
    exact hw.unlisted_type h element rfl
  indexed := by
    rintro list index type rfl
    exact absurd h.here.1 (hw.unlisted_type (h.first rfl) type)
  bound := by
    cases e with
    | var name type => exact (hw.binds h.here).2
    | _ => trivial
  honest := by
    cases e with
    | call callee args =>
      obtain ⟨⟨name, hcallee⟩, -⟩ := h.here
      obtain ⟨_, _, _, rfl⟩ := Prelude.exists_ofDoubles (hw.mem_prelude hcallee)
      exact Prelude.keepsTo_ofDoubles _ _ _
    | property object member =>
      obtain ⟨-, name, others, hmembers⟩ := h.here
      exact fun target host _ =>
        ⟨trivial, fun v hv => Catalog.inhabits_of_intrinsic (hw.intrinsic hmembers) hv⟩
    | method object callee args => exact (hw.not_resolves h.here.2).elim
    | _ => trivial

end Closed

/-! ## Evaluation -/

/-- Whatever bindings are accepted and whatever text then compiles, evaluating it with these bindings comes
to a value, or fails with a conversion or with a call on the host. The value is one of the type of the
expression, unless the expression is the bare name of a type. -/
theorem evaluate_of_bindAll {bindings : List String} (hbind : new.bindAll bindings = .ok w)
    {source : String} {c : Compiled Unit} (h : (w.session.compile source).value = .ok c) :
    (∃ v, (c.evaluate w.values ()).value.1 = .ok v ∧
        (c.root.isTypeReference = false → v.Inhabits c.type)) ∨
      (∃ value target details, (c.evaluate w.values ()).value.1 =
        .error (.conversionFailed value target details)) ∨
      ∃ callee details, (c.evaluate w.values ()).value.1 = .error (.hostFailure callee details) := by
  have hw : w.Closed := closed_new.bindAll hbind
  have hbuilds : c.root.Everywhere w.session.Builds := Session.builds_of_compile h
  have hsteady : c.root.Everywhere (Expr.Steady (fun _ => True) EvalError.IsForeign w.values) :=
    fun node hnode => hw.steady fun below hbelow => hbuilds below (hnode.trans hbelow)
  have hends : EvalM.Ends (fun _ => True) True (c.root.evaluate w.values)
      (fun v => c.root.isTypeReference = false → v.Inhabits c.type) EvalError.IsForeign :=
    .bind (Expr.answer_steady (fun _ => id) hsteady) fun a => .pure fun ha => ha.2
  have houtcome := (hends () trivial).2 trivial
  show (∃ v, (c.root.evaluate w.values ()).1 = .ok v ∧ _) ∨
    (∃ value target details, (c.root.evaluate w.values ()).1 = _) ∨
      ∃ callee details, (c.root.evaluate w.values ()).1 = _
  cases hresult : (c.root.evaluate w.values ()).1 with
  | ok v =>
    rw [hresult] at houtcome
    exact .inl ⟨v, rfl, houtcome⟩
  | error e =>
    rw [hresult] at houtcome
    cases e with
    | conversionFailed value target details => exact .inr (.inl ⟨_, _, _, rfl⟩)
    | hostFailure callee details => exact .inr (.inr ⟨_, _, rfl⟩)
    | _ => exact houtcome.elim

/-- The bindings are accepted, and the text then compiles. -/
def Admits (w : Workspace) (bindings : List String) (source : String) : Prop :=
  ∃ w', w.bindAll bindings = .ok w' ∧ w'.session.Compiles source

instance (w : Workspace) (bindings : List String) (source : String) :
    Decidable (w.Admits bindings source) :=
  match h : w.bindAll bindings with
  | .ok w' => decidable_of_iff (w'.session.Compiles source)
      ⟨fun hc => ⟨w', h, hc⟩, fun ⟨_, heq, hc⟩ => by cases h.symm.trans heq; exact hc⟩
  | .error _ => isFalse fun ⟨_, heq, _⟩ => nomatch h.symm.trans heq

theorem evaluate_of_bindAll_replaced :
    ∃ w c, new.bindAll ["n:int=4", "int:string=four", "n:string=eight"] = .ok w ∧
      (w.session.compile "n.Length > 4 ? max(bool, int) : 1").value = .ok c ∧
      ((∃ v, (c.evaluate w.values ()).value.1 = .ok v ∧
          (c.root.isTypeReference = false → v.Inhabits c.type)) ∨
        (∃ value target details, (c.evaluate w.values ()).value.1 =
          .error (.conversionFailed value target details)) ∨
        ∃ callee details,
          (c.evaluate w.values ()).value.1 = .error (.hostFailure callee details)) := by
  obtain ⟨w, hbind, c, hc⟩ : new.Admits ["n:int=4", "int:string=four", "n:string=eight"]
      "n.Length > 4 ? max(bool, int) : 1" := by decide +kernel
  exact ⟨w, c, hbind, hc, evaluate_of_bindAll hbind hc⟩

end Workspace

end CommandLine

end HostExpr
