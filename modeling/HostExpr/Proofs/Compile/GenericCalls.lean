-- SUMMARY: Calls of generic methods: no slot is left, and the names of slots do not matter.
import HostExpr.Proofs.Compile.Trees
import HostExpr.Proofs.Ty.Substitution

/-!
# Calls of generic methods

A call has one type argument for each generic parameter of its method. So no type of the method has a slot
of such a parameter any more, unless a type argument brought one of that name along.

Type arguments are put in place of slots all at once, so it makes no difference which names the slots of a
method have. A method alone may be given fewer type arguments than it has generic parameters; the slots of
the others stay, under the names that they have.
-/

namespace HostExpr

variable {σ : Type}

namespace Method

/-- The types of the signature: that of the result, and those of the parameters. -/
def types (m : Method σ) : List Ty := m.returns :: m.params

/-- The method with other names for its generic parameters and their slots. -/
def renameSlots (m : Method σ) (f : String → String) : Method σ :=
  { m with
    params := m.params.map (Ty.renameSlots f)
    returns := m.returns.renameSlots f
    genericParams := m.genericParams.map f }

/-- The names are new ones for the generic parameters: different parameters get different names, which no
type of the signature has for a slot. All other slots keep theirs. -/
structure Renames (m : Method σ) (f : String → String) : Prop where
  injective : ∀ a ∈ m.genericParams, ∀ b ∈ m.genericParams, f a = f b → a = b
  fresh : ∀ a ∈ m.genericParams, ∀ ty ∈ m.types, ¬ ty.Mentions (f a)
  keeps : ∀ a ∉ m.genericParams, f a = a

variable {m : Method σ} {f : String → String}

theorem types_instantiate (m : Method σ) (args : List Ty) :
    (m.instantiate args).types = m.types.map (Ty.substitute m.genericParams args) := rfl

/-- A method with other names for its slots is instantiated alike, but for slots without a type argument:
these have their new names. -/
theorem types_instantiate_renameSlots (h : m.Renames f) (args : List Ty) :
    ((m.renameSlots f).instantiate args).types =
      (m.instantiate (Ty.completeArgs f m.genericParams args)).types := by
  have htypes : (m.renameSlots f).types = m.types.map (Ty.renameSlots f) := rfl
  rw [types_instantiate, types_instantiate, htypes, List.map_map]
  refine List.map_congr_left fun ty hty => ?_
  exact Ty.substitute_renameSlots h.injective h.keeps fun a ha => h.fresh a ha ty hty

end Method

/-- In a compiled tree, no type of the method of a generic call has a slot of one of the method's generic
parameters, if no type argument has one.

A slot in any depth of lists is filled with the type argument at the position of its parameter, as that is,
whatever slots it has. Types without such a slot stay: those without any slot, those with a slot that is none
of the method's, and those whose slot has no type argument. So other names for the generic parameters of a
method leave the types of the instantiated method as they are, if there is a type argument for each of them;
and if there is not, then the slots of the others have their new names. -/
theorem genericCalls_filled {σ : Type} :
    (∀ (s : Session σ) (source : String) (c : Compiled σ), (s.compile source).value = .ok c →
      ∀ object callee args, c.root.IsNode (.method object callee args) → callee.isGeneric →
        (∀ name ∈ callee.genericParams, ∀ arg ∈ callee.typeArgs, ¬ arg.Mentions name) →
        ∀ name ∈ callee.genericParams, ∀ ty ∈ callee.types, ¬ ty.Mentions name) ∧
    ∀ (m : Method σ) (args : List Ty),
      (∀ name ∈ m.genericParams, ∀ arg, args[m.genericParams.idxOf name]? = some arg →
        ∀ i depth : Nat, m.types[i]? = some (Nat.repeat Ty.list depth (Ty.generic name)) →
          (m.instantiate args).types[i]? = some (Nat.repeat Ty.list depth arg)) ∧
      (∀ (i : Nat) ty, m.types[i]? = some ty →
        (∀ name ∈ m.genericParams, ty.Mentions name → args.length ≤ m.genericParams.idxOf name) →
          (m.instantiate args).types[i]? = some ty) ∧
      ∀ f, m.Renames f →
        ((m.renameSlots f).instantiate args).types =
          (m.instantiate (Ty.completeArgs f m.genericParams args)).types ∧
        (m.genericParams.length ≤ args.length →
          ((m.renameSlots f).instantiate args).types = (m.instantiate args).types) := by
  constructor
  · intro s source c hcompile object callee args hnode hgeneric hargs name hname ty hty
    obtain ⟨-, hresolves⟩ : s.Builds (.method object callee args) :=
      Session.builds_of_compile hcompile _ hnode
    obtain ⟨pattern, hcallee, hlength⟩ := hresolves.exists_pattern hgeneric
    generalize callee.typeArgs = typeArgs at *
    subst hcallee
    rw [Method.types_instantiate] at hty
    obtain ⟨slotted, -, rfl⟩ := List.mem_map.1 hty
    exact Ty.not_mentions_substitute hname (Nat.le_of_eq hlength) (hargs name hname) slotted
  · intro m args
    refine ⟨fun name hname arg harg i depth hi => ?_, fun i ty hi hopen => ?_, fun f hf => ?_⟩
    · rw [Method.types_instantiate, List.getElem?_map, hi]
      exact congrArg some (Ty.substitute_repeat hname harg depth)
    · rw [Method.types_instantiate, List.getElem?_map, hi]
      exact congrArg some (Ty.substitute_eq_self hopen)
    · have hrenamed := Method.types_instantiate_renameSlots hf args
      refine ⟨hrenamed, fun hlength => ?_⟩
      rw [hrenamed, Ty.completeArgs_of_length_le hlength]

/-! ## Two slots, and one too many -/

/-- A method with two slots. -/
def Method.swap : Method Unit :=
  .generic "Swap" ["T", "U"] [.generic "T", .list (.generic "U")] (.generic "U") fun _ _ _ => pure .null

/-- A method with one slot. -/
def Method.first : Method Unit :=
  .generic "First" ["T"] [.list (.generic "T")] (.generic "T") fun _ _ _ => pure .null

/-- A call with a text and a list of `int` has no slots. The slots of the method can be filled with each other,
and with new names for them nothing else comes out. -/
theorem genericCalls_filled_swap :
    (∀ ty ∈ (Method.swap.instantiate [.string, .int]).types, ¬ ty.Mentions "T" ∧ ¬ ty.Mentions "U") ∧
    (Method.swap.instantiate [.generic "U", .generic "T"]).types =
      [.generic "T", .generic "U", .list (.generic "T")] ∧
    ((Method.swap.renameSlots fun name =>
        if name = "T" then "A" else if name = "U" then "B" else name).instantiate
      [.generic "U", .generic "T"]).types = [.generic "T", .generic "U", .list (.generic "T")] := by
  let s : Session Unit := (Session.ofCatalog ((∅ : Catalog Unit).addMethod .string .swap)).addVariable
    "xs" (.list .int)
  have hcompile : (s.compile "'a'.Swap<string, int>('b', xs)").value =
      .ok ⟨"'a'.Swap<string, int>('b', xs)", .method (.string "a")
        (Method.swap.instantiate [.string, .int]) [.string "b", .var "xs" (.list .int)]⟩ := by
    with_unfolding_all rfl
  obtain ⟨hcalls, hmethods⟩ := @genericCalls_filled Unit
  have hcall := hcalls s _ _ hcompile _ _ _ .root rfl (by decide)
  have hswap : (Method.swap.instantiate [.generic "U", .generic "T"]).types =
      [.generic "T", .generic "U", .list (.generic "T")] := rfl
  have hrenames : Method.swap.Renames fun name =>
      if name = "T" then "A" else if name = "U" then "B" else name := by
    refine ⟨by decide, by decide, fun name hname => ?_⟩
    have hT : name ≠ "T" := fun h => hname (by rw [h]; decide)
    have hU : name ≠ "U" := fun h => hname (by rw [h]; decide)
    rw [if_neg hT, if_neg hU]
  refine ⟨fun ty hty => ⟨hcall "T" (by decide) ty hty, hcall "U" (by decide) ty hty⟩, hswap, ?_⟩
  exact (((hmethods _ _).2.2 _ hrenames).2 (by decide)).trans hswap

/-- Without a type argument, a slot stays and has the name that it was given. -/
theorem not_genericCalls_renamed :
    ¬ ∀ (m : Method Unit) (args : List Ty) (f : String → String), m.genericParams.Nodup → m.Renames f →
      ((m.renameSlots f).instantiate args).types = (m.instantiate args).types := by
  intro hclaim
  have hrenames : Method.first.Renames fun name => if name = "T" then "U" else name := by
    refine ⟨by decide, by decide, fun name hname => if_neg fun h => hname ?_⟩
    rw [h]
    decide
  have htypes := hclaim .first [] _ (by decide) hrenames
  exact absurd htypes (by decide)

end HostExpr
