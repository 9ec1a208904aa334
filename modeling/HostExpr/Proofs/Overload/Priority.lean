-- SUMMARY: Which method a call without type arguments means, and which declarations do not change that.
import Mathlib.Data.List.Forall2
import HostExpr.Proofs.Catalog
import HostExpr.Proofs.Overload.Bounds

/-!
# Calls without type arguments

The methods of the containing type come before extension methods, and in each of the two groups parameters
of the very types of the arguments come before parameters that accept them. The first method in order of
declaration is the one meant (`resolve_iff`).

What a group holds is said of all methods of the types in question (`Callable`, `Extends`), and not of
candidates that were filtered before.
-/

namespace HostExpr.Overload

variable {α σ : Type} {m : Method σ} {ty : Ty} {name : String} {args : List Ty}

/-! ## The first of a kind -/

/-- The first member of a list with a property. -/
def First (p : α → Prop) (l : List α) (a : α) : Prop :=
  ∃ before after, l = before ++ a :: after ∧ p a ∧ ∀ b ∈ before, ¬ p b

theorem find?_filter_eq_some_iff {p : α → Prop} {q r : α → Bool} {l : List α} {a : α}
    (h : ∀ a, p a ↔ q a = true ∧ r a = true) : (l.filter q).find? r = some a ↔ First p l a := by
  rw [List.find?_filter, List.find?_eq_some_iff_append]
  simp only [First, h, Bool.not_eq_true', decide_eq_true_eq, decide_eq_false_iff_not]
  constructor
  · rintro ⟨ha, before, after, hl, hbefore⟩
    exact ⟨before, after, hl, ha, hbefore⟩
  · rintro ⟨before, after, hl, ha, hbefore⟩
    exact ⟨ha, before, after, hl, hbefore⟩

theorem find?_filter_eq_none_iff {p : α → Prop} {q r : α → Bool} {l : List α}
    (h : ∀ a, p a ↔ q a = true ∧ r a = true) : (l.filter q).find? r = none ↔ ∀ a ∈ l, ¬ p a := by
  rw [List.find?_filter, List.find?_eq_none]
  simp only [h, decide_eq_true_eq]

/-! ## Two groups of methods -/

/-- The parameters accept the arguments, one each. -/
def Accepting (args params : List Ty) : Prop :=
  List.Forall₂ (fun param arg => param.accepts arg = true) params args

/-- A method of a name, without generic parameters, whose parameters are as required. -/
def Callable (name : String) (fits : List Ty → Prop) (m : Method σ) : Prop :=
  m.name = name ∧ m.isGeneric = false ∧ fits m.params

/-- An extension method of a name, without generic parameters, whose first parameter is the extended type
and whose others are as required. -/
def Extends (ty : Ty) (name : String) (fits : List Ty → Prop) (m : Method σ) : Prop :=
  m.isExtension = true ∧ Callable name (fun params => ∃ rest, params = ty :: rest ∧ fits rest) m

/-- In a group of methods, the first one with parameters of the very types of the arguments, or else the first
one with parameters that accept them. -/
def Picks (group : (List Ty → Prop) → Method σ → Prop) (args : List Ty) (methods : List (Method σ))
    (m : Method σ) : Prop :=
  First (group (· = args)) methods m ∨
    (∀ m' ∈ methods, ¬ group (· = args) m') ∧ First (group (Accepting args)) methods m

theorem accepting_iff {params : List Ty} (h : params.length = args.length) :
    Accepting args params ↔ accepts params args := by
  rw [Accepting, List.forall₂_iff_zip, accepts, List.all_eq_true]
  exact ⟨fun h pair hpair => h.2 hpair, fun haccepts => ⟨h, fun hpair => haccepts _ hpair⟩⟩

theorem Accepting.length_eq {params : List Ty} (h : Accepting args params) :
    params.length = args.length :=
  List.Forall₂.length_eq h

/-! ## How the groups are filtered -/

/-- A filter of methods stands for a group: the parameters that count are as many as the arguments, and they
are as required if and only if the method is in the group. -/
structure Filters (group : (List Ty → Prop) → Method σ → Prop) (shape : Method σ → Bool)
    (skip arity : Nat) : Prop where
  length_eq : ∀ m, shape m = true → (m.params.drop skip).length = arity
  group_iff : ∀ fits : List Ty → Prop, (∀ params, fits params → params.length = arity) →
    ∀ m, group fits m ↔ shape m = true ∧ fits (m.params.drop skip)

namespace Filters

variable {group : (List Ty → Prop) → Method σ → Prop} {shape : Method σ → Bool} {skip : Nat}
  {methods : List (Method σ)}

theorem exact_iff (h : Filters group shape skip args.length) (m : Method σ) :
    group (· = args) m ↔ shape m = true ∧ decide (m.params.drop skip = args) = true := by
  rw [h.group_iff _ (fun params heq => congrArg List.length heq), decide_eq_true_eq]

theorem accepting_iff (h : Filters group shape skip args.length) (m : Method σ) :
    group (Accepting args) m ↔ shape m = true ∧ accepts (m.params.drop skip) args = true := by
  rw [h.group_iff _ fun params => Accepting.length_eq]
  exact and_congr_right fun hshape => Overload.accepting_iff (h.length_eq m hshape)

/-- Very types are accepted. -/
theorem accepting_of_exact (h : Filters group shape skip args.length) (hexact : group (· = args) m) :
    group (Accepting args) m := by
  obtain ⟨hshape, hparams⟩ := (h.exact_iff m).1 hexact
  refine (h.accepting_iff m).2 ⟨hshape, ?_⟩
  rw [of_decide_eq_true hparams]
  exact accepts_self args

/-- What is chosen among filtered methods. -/
theorem select?_eq_some_iff (h : Filters group shape skip args.length) :
    select? skip args (methods.filter shape) = some m ↔ Picks group args methods m := by
  have hfirst := find?_filter_eq_some_iff (l := methods) (a := m) h.exact_iff
  have hnone := find?_filter_eq_none_iff (l := methods) h.exact_iff
  have hsecond := find?_filter_eq_some_iff (l := methods) (a := m) h.accepting_iff
  rw [Picks, ← hfirst, ← hnone, ← hsecond]
  exact Overload.select?_eq_some_iff

/-- Nothing is chosen if and only if no method accepts the arguments. -/
theorem select?_eq_none_iff (h : Filters group shape skip args.length) :
    select? skip args (methods.filter shape) = none ↔ ∀ m ∈ methods, ¬ group (Accepting args) m := by
  have hfirst := find?_filter_eq_none_iff (l := methods) h.exact_iff
  have hsecond := find?_filter_eq_none_iff (l := methods) h.accepting_iff
  rw [← hsecond, select?, Option.orElse_eq_orElse, Option.orElse_eq_or, Option.or_eq_none_iff]
  refine and_iff_right_of_imp fun hnone => hfirst.2 fun m hm hexact => ?_
  exact hsecond.1 hnone m hm (h.accepting_of_exact hexact)

end Filters

/-- The methods of a name, without generic parameters, and with as many parameters as a call has arguments. -/
def ofArity (name : String) (arity : Nat) (m : Method σ) : Bool :=
  !m.isGeneric && m.params.length = arity && m.name = name

/-- The extension methods among those with one parameter more, whose first parameter is the extended type. -/
def extending (ty : Ty) (name : String) (arity : Nat) (m : Method σ) : Bool :=
  m.isExtension && !m.isGeneric && m.params.length = arity + 1 && m.params.head? = some ty && m.name = name

theorem filters_ofArity (name : String) (arity : Nat) :
    Filters (Callable (σ := σ) name) (ofArity name arity) 0 arity where
  length_eq m hshape := by
    simp only [ofArity, Bool.and_eq_true, decide_eq_true_eq] at hshape
    exact hshape.1.2
  group_iff fits hlength m := by
    simp only [Callable, ofArity, Bool.and_eq_true, decide_eq_true_eq, Bool.not_eq_true', List.drop_zero,
      and_assoc]
    constructor
    · rintro ⟨hname, hgeneric, hfits⟩
      exact ⟨hgeneric, hlength _ hfits, hname, hfits⟩
    · rintro ⟨hgeneric, -, hname, hfits⟩
      exact ⟨hname, hgeneric, hfits⟩

theorem filters_extending (ty : Ty) (name : String) (arity : Nat) :
    Filters (Extends (σ := σ) ty name) (extending ty name arity) 1 arity where
  length_eq m hshape := by
    simp only [extending, Bool.and_eq_true, decide_eq_true_eq] at hshape
    rw [List.length_drop, hshape.1.1.2, Nat.add_sub_cancel]
  group_iff fits hlength m := by
    simp only [Extends, Callable, extending, Bool.and_eq_true, decide_eq_true_eq, Bool.not_eq_true',
      and_assoc]
    constructor
    · rintro ⟨hextension, hname, hgeneric, rest, hparams, hfits⟩
      have harity : m.params.length = arity + 1 := by rw [hparams, List.length_cons, hlength rest hfits]
      rw [hparams] at harity ⊢
      exact ⟨hextension, hgeneric, harity, rfl, hname, hfits⟩
    · rintro ⟨hextension, hgeneric, -, hfirst, hname, hfits⟩
      obtain ⟨rest, hparams⟩ := List.head?_eq_some_iff.1 hfirst
      rw [hparams] at hfits
      exact ⟨hextension, hname, hgeneric, rest, hparams, hfits⟩

theorem declared_eq_filter (c : Catalog σ) (ty : Ty) (name : String) (arity : Nat) :
    declared c ty name arity = (c.definition ty).methods.filter (ofArity name arity) :=
  List.filter_filter

theorem extensions_eq_filter (c : Catalog σ) (helpers : List Ty) (ty : Ty) (name : String) (arity : Nat) :
    extensions c helpers ty name arity =
      (helpers.flatMap fun helper => (c.definition helper).methods).filter (extending ty name arity) := by
  unfold extensions Catalog.methods
  rw [← List.filter_flatMap, List.filter_filter]
  rfl

/-! ## Calls that nothing changes -/

/-- More candidates at the end do not change a choice by the very types. -/
theorem select?_append {skip : Nat} {candidates : List (Method σ)} (more : List (Method σ))
    (h : ∃ m ∈ candidates, m.params.drop skip = args) :
    select? skip args (candidates ++ more) = select? skip args candidates := by
  obtain ⟨m, hm, hexact⟩ := h
  have hfound : (candidates.find? fun m => m.params.drop skip = args).isSome :=
    List.find?_isSome.2 ⟨m, hm, decide_eq_true hexact⟩
  obtain ⟨first, hfirst⟩ := Option.isSome_iff_exists.1 hfound
  unfold select?
  rw [List.find?_append, hfirst]
  rfl

/-- If a method of the containing type has the very types of the arguments, then no later declaration and no
helper type changes what a call means. -/
theorem resolve_declareAll {c : Catalog σ} {m : Method σ} (hm : m ∈ (c.definition ty).methods)
    (hexact : Callable name (· = args) m) (ds : List (Declaration σ)) (helpers helpers' : List Ty) :
    resolve (c.declareAll ds) helpers' ty name args = resolve c helpers ty name args := by
  obtain ⟨hshape, hparams⟩ := ((filters_ofArity name args.length).exact_iff m).1 hexact
  have hmem : m ∈ declared c ty name args.length := by
    rw [declared_eq_filter]
    exact List.mem_filter.2 ⟨hm, hshape⟩
  have hmore : declared (c.declareAll ds) ty name args.length =
      declared c ty name args.length ++
        (ds.filterMap (·.methodOn? ty)).filter (ofArity name args.length) := by
    rw [declared_eq_filter, declared_eq_filter, Catalog.methods_declareAll, List.filter_append]
  have hsame := select?_append ((ds.filterMap (·.methodOn? ty)).filter (ofArity name args.length))
    ⟨m, hmem, of_decide_eq_true hparams⟩
  have hsome : select? 0 args (declared c ty name args.length) ≠ none := by
    rw [declared_eq_filter, Ne, (filters_ofArity name args.length).select?_eq_none_iff]
    exact fun h => h m hm ((filters_ofArity name args.length).accepting_of_exact hexact)
  unfold resolve
  rw [hmore, hsame]
  cases hchosen : select? 0 args (declared c ty name args.length) with
  | some m => rfl
  | none => exact absurd hchosen hsome

/-! ## The rule -/

/-- A call without type arguments reads no parameter out of range. It means the first method of the
containing type with parameters of the very types of the arguments, or else the first one that accepts them;
where no such method accepts them, it means the first extension method of the helper types by the same rule;
and it is one of an unknown method where none of these accepts them either. If a method of the containing type
has the very types of the arguments, then no later declaration, on any type, and no helper type changes what
the call means. -/
theorem resolve_iff (c : Catalog σ) (helpers : List Ty) (ty : Ty) (name : String) (args : List Ty) :
    let own := (c.definition ty).methods
    let helping := helpers.flatMap fun helper => (c.definition helper).methods
    let outcome := (resolve c helpers ty name args).value
    resolveChecked? c helpers ty name args = some outcome ∧
    (∀ m, outcome = .ok m ↔ Picks (Callable name) args own m ∨
      (∀ m' ∈ own, ¬ Callable name (Accepting args) m') ∧ Picks (Extends ty name) args helping m) ∧
    (outcome = .error (.unknownMethod ty.text name (Ty.texts args)) ↔
      (∀ m ∈ own, ¬ Callable name (Accepting args) m) ∧
        ∀ m ∈ helping, ¬ Extends ty name (Accepting args) m) ∧
    ((∃ m ∈ own, Callable name (· = args) m) → ∀ ds helpers',
      resolve (c.declareAll ds) helpers' ty name args = resolve c helpers ty name args) := by
  intro own helping outcome
  have hown := filters_ofArity (σ := σ) name args.length
  have hhelping := filters_extending (σ := σ) ty name args.length
  refine ⟨resolveChecked?_eq_some c helpers ty name args, fun m => ?_, ?_, ?_⟩
  · rw [← hown.select?_eq_some_iff, ← hown.select?_eq_none_iff, ← hhelping.select?_eq_some_iff,
      ← declared_eq_filter, ← extensions_eq_filter]
    exact resolve_eq_ok_iff
  · rw [← hown.select?_eq_none_iff, ← hhelping.select?_eq_none_iff, ← declared_eq_filter,
      ← extensions_eq_filter]
    exact resolve_eq_error_iff.trans (and_iff_right rfl)
  · rintro ⟨m, hm, hexact⟩ ds helpers'
    exact resolve_declareAll hm hexact ds helpers helpers'

/-- A method of texts that takes a number of one kind. -/
def repeated (kind : NumberKind) : Method Unit :=
  .onInstance "Repeat" [.number kind] .string fun target _ => pure target

/-- An extension of texts that takes a number. -/
def repeatedAgain : Method Unit :=
  .extension "Repeat" [.string, .int] .string fun args => pure (args.headD .null)

/-- The method for words is still the one meant after one more method for words, and an extension. -/
theorem resolve_iff_repeat :
    let c := (∅ : Catalog Unit).addMethod .string (repeated .double) |>.addMethod .string (repeated .int)
    let ds := [.method .string (repeated .int), .method (.object "Texts") repeatedAgain]
    (∃ m ∈ (c.definition .string).methods, Callable "Repeat" (· = [.int]) m) ∧
      (resolve (c.declareAll ds) [.object "Texts"] .string "Repeat" [.int]).value = .ok (repeated .int) := by
  intro c ds
  have hexact : ∃ m ∈ (c.definition .string).methods, Callable "Repeat" (· = [.int]) m :=
    ⟨repeated .int, .tail _ (.head _), rfl, rfl, rfl⟩
  have hsame := (resolve_iff c [] .string "Repeat" [.int]).2.2.2 hexact ds [.object "Texts"]
  refine ⟨hexact, ?_⟩
  rw [hsame]
  rfl

end HostExpr.Overload
