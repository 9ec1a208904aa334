-- SUMMARY: The text of a compiled tree compiles to that tree.
import HostExpr.Proofs.Compile.Reading
import HostExpr.Proofs.Token.Tiling
import HostExpr.Proofs.Enumeration

/-!
# Texts of compiled trees

The text of a compiled tree is a text of the language again, and it means the same tree. That takes a
session in which names lead back: functions are called by their own names, an enumeration is registered
under the name that it is shown with, and a name that a member goes by is no generic method too, as the
`<` of a comparison would open type arguments after it.
-/

namespace HostExpr

variable {σ : Type} {s : Session σ}

/-! ## Names of what is found -/

namespace Catalog

variable {c : Catalog σ} {ty : Ty} {name : String}

theorem name_of_members {member : Member σ} (h : member ∈ c.members ty name) : member.name = name := by
  rcases List.mem_append.1 h with hdeclared | hintrinsic
  · exact of_decide_eq_true (List.mem_filter.1 hdeclared).2
  · rw [Option.mem_toList] at hintrinsic
    unfold intrinsic? at hintrinsic
    split at hintrinsic
    · split at hintrinsic <;> cases hintrinsic
      exact Eq.symm ‹_›
    · split at hintrinsic <;> cases hintrinsic
      exact Eq.symm ‹_›
    · cases hintrinsic

theorem name_of_methods {m : Method σ} (h : m ∈ c.methods ty name) : m.name = name :=
  of_decide_eq_true (List.mem_filter.1 h).2

end Catalog

/-- A method that a call without type arguments means is declared under the name, and not generic. -/
theorem Overload.exists_methods_of_resolve {c : Catalog σ} {helpers : List Ty} {ty : Ty} {name : String}
    {args : List Ty} {m : Method σ} (h : (resolve c helpers ty name args).value = .ok m) :
    ∃ owner, m ∈ c.methods owner name ∧ m.isGeneric = false := by
  rcases mem_of_resolve h with h | h
  · obtain ⟨hmem, hgeneric, -⟩ := mem_declared.1 h
    exact ⟨ty, hmem, hgeneric⟩
  · obtain ⟨⟨helper, -, hmem⟩, -, hgeneric, -⟩ := mem_extensions.1 h
    exact ⟨helper, hmem, hgeneric⟩

/-! ## Functions under their own names -/

/-- Every function is called by its own name. -/
def Session.CallsByName (s : Session σ) : Prop :=
  ∀ name callee, s.functions.find? name = some callee → callee.name = name

namespace Session.CallsByName

theorem ofCatalog (c : Catalog σ) : (Session.ofCatalog c).CallsByName := by
  intro name callee h
  cases h

theorem addFunction (h : s.CallsByName) (f : HostFunction σ) : (s.addFunction f).CallsByName := by
  intro name callee hcallee
  by_cases heq : name = f.name
  · subst heq
    rw [Session.addFunction, Names.find?_insert_self] at hcallee
    cases hcallee
    rfl
  · rw [Session.addFunction, Names.find?_insert_of_ne _ _ heq] at hcallee
    exact h name callee hcallee

theorem addPrelude (h : s.CallsByName) : s.addPrelude.CallsByName := by
  unfold Session.addPrelude
  generalize Prelude.functions = functions
  induction functions generalizing s with
  | nil => exact h
  | cons f functions ih => exact ih (h.addFunction f)

theorem addVariable (h : s.CallsByName) (name : String) (type : Ty) :
    (s.addVariable name type).CallsByName := h

theorem addType (h : s.CallsByName) (name : String) (type : Ty) :
    (s.addType name type).CallsByName := h

theorem addHelper (h : s.CallsByName) (type : Ty) : (s.addHelper type).CallsByName := h

end Session.CallsByName

/-! ## Texts that can be read back -/

/-- The text of the node shows what it is: a literal reads back from its digits or its escapes, a type is
registered under the name that it is shown with, no cast takes what comes after it, and no sign stands
before another sign or before a base of suffixes. -/
def Session.Shows (s : Session σ) : Expr σ → Prop
  | .number value kind =>
    value.isFinite ∧ (kind = .int → Floating.isIntegral value) ∧
      Decimal.double? (Decimal.ofDouble value).toList = some value
  | .string text => ∀ c ∈ text.toList, Text.isSimple c
  | .enum value =>
    s.vars.find? value.type.name = none ∧ s.types.find? value.type.name = some (.enum value.type) ∧
      (value.type.members.map (·.1)).Nodup ∧ (value.type.members.map (·.2)).Nodup
  | .logicalUnary _ operand | .arithmeticUnary _ operand _ => operand.isUnary = false
  | .property object _ => object.isUnary = false
  | .method object callee _ =>
    object.isUnary = false ∧
      ∀ type ∈ callee.typeArgs, s.vars.find? type.text = none ∧ s.types.find? type.text = some type
  | .element list _ _ => list.isUnary = false
  | .convert _ _ => False
  | _ => True

/-- The types in the text of the node are shown with words. -/
def Expr.ShowsWords : Expr σ → Prop
  | .enum value => isName value.type.name
  | .method _ callee _ => ∀ type ∈ callee.typeArgs, isName type.text
  | _ => True

/-- No name goes to a member and to a generic method of the same type. -/
def Catalog.KeepsApart (c : Catalog σ) : Prop :=
  ∀ ty name, c.members ty name ≠ [] → c.hasGenericMethod ty name = false

/-- No method is declared with type arguments but without a slot for them. -/
def Catalog.FillsSlots (c : Catalog σ) : Prop :=
  ∀ ty name, ∀ m ∈ c.methods ty name, m.isGeneric = false → m.typeArgs = []

/-- No type has a declared member and a generic method of the same name. -/
def Catalog.DeclaresApart (c : Catalog σ) : Prop :=
  ∀ ty, ∀ member ∈ (c.definition ty).members, c.hasGenericMethod ty member.name = false

/-- Every rule of the grammar builds a node that is written with lexemes and read back from them. -/
theorem Session.rules_spells (hcalls : s.CallsByName) (happart : s.catalog.KeepsApart)
    (hslots : s.catalog.FillsSlots) :
    s.Rules Token.IsRead fun e => s.Shows e → e.ShowsWords → s.Spells e ∧ e.Writes where
  literal := by
    intro token e hread hliteral hshows _
    cases token <;> cases hliteral
    case number value kind => exact ⟨trivial, hshows.1, hread.1, hread.2, hshows.2⟩
    case string text => exact ⟨trivial, hshows⟩
    case truth b => exact ⟨trivial, trivial⟩
  conditional := fun hcondition hleft hright _ _ => ⟨⟨hcondition, hleft, hright⟩, trivial⟩
  operation := by
    intro p op left right hop hleft hright _ _
    have hbuilds : s.Builds (op.combine left right) := builds_combine hop hleft hright
    cases op <;> exact ⟨hbuilds, trivial⟩
  sign := by
    intro op operand hop hrole hshows _
    have hbuilds : s.Builds (op.apply operand) := builds_apply hop hrole
    cases op with
    | not => exact ⟨⟨hbuilds.1, hbuilds.2, hshows⟩, hbuilds.1⟩
    | arithmetic op => exact ⟨⟨hbuilds.1, hbuilds.2.1, hbuilds.2.2, hshows⟩, hbuilds.1⟩
  cast := fun _ _ _ hshows _ => hshows.elim
  call := by
    intro name callee args hread hcallee harity hlast _ _
    cases hcalls name callee hcallee
    exact ⟨⟨hcallee, harity, hlast⟩, hread⟩
  var := fun hread htype _ _ => ⟨htype, hread⟩
  enumMember := by
    intro name member enum value _ hread hvalue hshows hword
    obtain ⟨hvar, htype, -, hvalues⟩ := hshows
    have hname := EnumType.nameOf?_of_valueOf? hvalues hvalue
    exact ⟨⟨hvar, htype, member, hname, hvalue⟩, hword, member, hname, hread⟩
  typeName := fun hread hvar htype henum _ _ => ⟨⟨hvar, htype, henum⟩, hread⟩
  index := fun htype hnum hshows _ => ⟨⟨hshows, htype, hnum⟩, trivial⟩
  property := by
    intro name object member others hread hvoid hmember hshows _
    have hmem : member ∈ s.catalog.members object.type name := hmember ▸ List.mem_cons_self ..
    cases Catalog.name_of_members hmem
    have hgeneric := happart object.type member.name (by rw [hmember]; nofun)
    exact ⟨⟨hshows, hvoid, hgeneric, others, hmember⟩, hread⟩
  methodCall := by
    intro name object callee args hread hvoid hlast hcallee hshows _
    obtain ⟨owner, hmem, hgeneric⟩ := Overload.exists_methods_of_resolve hcallee
    have htypeArgs := hslots owner name callee hmem hgeneric
    cases Catalog.name_of_methods hmem
    refine ⟨⟨hshows.1, hvoid, hlast, .inl ⟨htypeArgs, hcallee⟩⟩, hread, ?_⟩
    rw [htypeArgs]
    nofun
  genericCall := by
    intro name typeArgs object pattern args hread hne _ hvoid hlast hgeneric hcallee hshows hwords
    have hmem := (Overload.mem_generics.1 (Overload.mem_of_resolveGeneric hcallee)).1
    cases Catalog.name_of_methods hmem
    refine ⟨⟨hshows.1, hvoid, hlast, .inr ⟨hne, hgeneric, fun type htype => ?_, pattern, rfl, hcallee⟩⟩,
      hread, hwords⟩
    obtain ⟨hvar, htype⟩ := hshows.2 type htype
    rw [hvar, htype]
    rfl

/-- The text of a tree compiles to the tree. -/
def Session.ReadsText (s : Session σ) (e : Expr σ) : Prop :=
  (s.compile e.text).value = .ok ⟨e.text, e⟩

/-- The text of a compiled tree compiles to that tree, in a session that keeps members and generic methods
apart, if every node shows what it is and its types are shown with words. -/
theorem Session.readsText_of_compile (hcalls : s.CallsByName) (happart : s.catalog.KeepsApart)
    (hslots : s.catalog.FillsSlots) {source : String} {c : Compiled σ}
    (h : (s.compile source).value = .ok c) (hshows : c.root.Everywhere s.Shows)
    (hwords : c.root.Everywhere Expr.ShowsWords) : s.ReadsText c.root := by
  have hboth := everywhere_of_compile h (rules_spells hcalls happart hslots) fun _ => isRead_of_lex
  have hspells : c.root.Everywhere s.Spells :=
    fun node hnode => (hboth node hnode (hshows node hnode) (hwords node hnode)).1
  have hwrites : c.root.Everywhere Expr.Writes :=
    fun node hnode => (hboth node hnode (hshows node hnode) (hwords node hnode)).2
  have hsplits := Expr.writtenAs_text hwrites .nil .nil
  rw [List.append_nil, List.append_nil] at hsplits
  obtain ⟨text, hlex, htokens⟩ := lex_of_splits hsplits
  exact compile_of_yields hlex (htokens ▸ yields_lexemes hspells)

namespace Session

/-! ## A tree with literals of every sort -/

/-- An enumeration with one member. -/
def color : EnumType := ⟨"Color", [("Red", 0)]⟩

/-- The session in which `Color` is the enumeration. -/
def withColor : Session Unit := Session.new.addType "Color" (.enum color)

theorem readsText_withColor :
    let number : Expr Unit := .number (Decimal.nearest 25 (-1)) .double
    let length : Expr Unit := .property (.string "a\t") Catalog.length
    withColor.ReadsText
      (.comparison .less (.unary .sub number) (.binary .add length (.enum ⟨color, 0⟩))) := by
  intro number length
  let sum : Expr Unit := .binary .add length (.enum ⟨color, 0⟩)
  have hcompile : (withColor.compile "-2.5 < 'a\\t'.Length + Color.Red").value =
      .ok ⟨"-2.5 < 'a\\t'.Length + Color.Red", .comparison .less (.unary .sub number) sum⟩ := by
    with_unfolding_all rfl
  -- The nodes from left to right, with the property of each.
  have heverywhere : ∀ P : Expr Unit → Prop, P number → P (.unary .sub number) → P (.string "a\t") →
      P length → P (.enum ⟨color, 0⟩) → P sum → P (.comparison .less (.unary .sub number) sum) →
      (Expr.comparison .less (.unary .sub number) sum).Everywhere P := by
    intro P hnumber hunary hstring hlength henum hsum hroot
    exact .two rfl hroot (.one rfl hunary (.leaf rfl hnumber))
      (.two rfl hsum (.one rfl hlength (.leaf rfl hstring)) (.leaf rfl henum))
  have hshows : (Expr.comparison .less (.unary .sub number) sum).Everywhere withColor.Shows := by
    refine heverywhere _ ?_ rfl ?_ rfl ?_ trivial trivial
    · exact ⟨by decide +kernel, nofun, by decide +kernel⟩
    · exact List.all_eq_true.1 (by decide +kernel : "a\t".toList.all Text.isSimple)
    · exact ⟨rfl, rfl, by decide, by decide⟩
  have hwords : (Expr.comparison .less (.unary .sub number) sum).Everywhere Expr.ShowsWords :=
    heverywhere _ trivial trivial trivial trivial (by decide : isName "Color") trivial trivial
  have hcalls : withColor.CallsByName := (CallsByName.ofCatalog ∅).addType _ _
  have hreads := readsText_of_compile hcalls (fun _ _ _ => rfl) (fun _ _ _ => nofun) hcompile hshows
    hwords
  exact hreads

/-! ## Sessions in which a text is not read back -/

/-- An enumeration that is shown with a blank. -/
def blankColor : EnumType := ⟨"My Color", [("Red", 0)]⟩

/-- The session in which the enumeration has a word for a name too. -/
def withBlank : Session Unit :=
  (Session.new.addType "Color" (.enum blankColor)).addType "My Color" (.enum blankColor)

/-- A generic method that goes by the name of a member that lists have without a declaration. -/
def counting : Method Unit := .generic "Count" ["T"] [] (.generic "T") fun _ _ _ => pure .null

/-- The session in which `xs` is a list with both. -/
def withCounting : Session Unit :=
  (ofCatalog ((∅ : Catalog Unit).addMethod (.list .int) counting)).addVariable "xs" (.list .int)

/-- A method with a type argument but without a slot for it. -/
def slotless : Method Unit :=
  { Method.onInstance "Twice" [] .int (fun target _ => pure target) with typeArgs := [.int] }

/-- The session in which `x` is an integer with the method. -/
def withSlotless : Session Unit :=
  (ofCatalog ((∅ : Catalog Unit).addMethod .int slotless)).addVariable "x" .int

theorem definition_single (ty ty' : Ty) (m : Method σ) :
    ((∅ : Catalog σ).addMethod ty m).definition ty' =
      if ty' = ty then ⟨[], [m]⟩ else ⟨[], []⟩ := by
  by_cases h : ty' = ty
  · subst h
    rw [if_pos rfl, Catalog.definition, Catalog.addMethod, Catalog.get?_set_self]
    rfl
  · rw [if_neg h, Catalog.definition, Catalog.addMethod, Catalog.get?_set_of_ne _ _ h]
    rfl

theorem eq_of_mem_methods_single {ty ty' : Ty} {name : String} {m m' : Method σ}
    (h : m' ∈ ((∅ : Catalog σ).addMethod ty m).methods ty' name) : m' = m := by
  have hmem := (List.mem_filter.1 h).1
  rw [definition_single] at hmem
  split at hmem
  · exact List.mem_singleton.1 hmem
  · cases hmem

/-- The text of a member shows the blank, which ends a word. -/
theorem exists_not_readsText_withBlank : ∃ c, (withBlank.compile "Color.Red").value = .ok c ∧
    c.root.Everywhere withBlank.Shows ∧ ¬ withBlank.ReadsText c.root := by
  let root : Expr Unit := .enum ⟨blankColor, 0⟩
  have hcompile : (withBlank.compile "Color.Red").value = .ok ⟨"Color.Red", root⟩ := by
    with_unfolding_all rfl
  have hshows : root.Everywhere withBlank.Shows := .leaf rfl ⟨rfl, rfl, by decide, by decide⟩
  have hfails : ¬ withBlank.Compiles root.text := by decide +kernel
  exact ⟨_, hcompile, hshows, fun hreads => hfails ⟨_, hreads⟩⟩

/-- In the text of the comparison, the `<` comes right after the name of the generic method. -/
theorem exists_not_readsText_withCounting : ∃ c,
    (withCounting.compile "(xs.Count) < 3").value = .ok c ∧ c.root.Everywhere withCounting.Shows ∧
      c.root.Everywhere Expr.ShowsWords ∧ ¬ withCounting.ReadsText c.root := by
  let root : Expr Unit := .comparison .less (.property (.var "xs" (.list .int)) Catalog.count)
    (.number (Decimal.nearest 3 0) .int)
  have hcompile : (withCounting.compile "(xs.Count) < 3").value = .ok ⟨"(xs.Count) < 3", root⟩ := by
    with_unfolding_all rfl
  have hthree : withCounting.Shows (.number (Decimal.nearest 3 0) .int) :=
    ⟨by decide +kernel, fun _ => by decide +kernel, by decide +kernel⟩
  have hshows : root.Everywhere withCounting.Shows :=
    .two rfl trivial (.one rfl rfl (.leaf rfl trivial)) (.leaf rfl hthree)
  have hwords : root.Everywhere Expr.ShowsWords :=
    .two rfl trivial (.one rfl trivial (.leaf rfl trivial)) (.leaf rfl trivial)
  have hfails : ¬ withCounting.Compiles root.text := by decide +kernel
  exact ⟨_, hcompile, hshows, hwords, fun hreads => hfails ⟨_, hreads⟩⟩

theorem declaresApart_withCounting : withCounting.catalog.DeclaresApart := by
  intro ty member hmember
  rw [withCounting, addVariable, ofCatalog, definition_single] at hmember
  split at hmember <;> cases hmember

theorem fillsSlots_withCounting : withCounting.catalog.FillsSlots := by
  intro ty name m hm hgeneric
  cases eq_of_mem_methods_single hm
  cases hgeneric

/-- The text shows the type argument, which no generic method takes. -/
theorem exists_not_readsText_withSlotless : ∃ c,
    (withSlotless.compile "x.Twice()").value = .ok c ∧ c.root.Everywhere withSlotless.Shows ∧
      c.root.Everywhere Expr.ShowsWords ∧ ¬ withSlotless.ReadsText c.root := by
  let root : Expr Unit := .method (.var "x" .int) slotless []
  have hcompile : (withSlotless.compile "x.Twice()").value = .ok ⟨"x.Twice()", root⟩ := by
    with_unfolding_all rfl
  have hshows : root.Everywhere withSlotless.Shows :=
    .one rfl ⟨rfl, List.forall_mem_cons.2 ⟨⟨rfl, rfl⟩, nofun⟩⟩ (.leaf rfl trivial)
  have hwords : root.Everywhere Expr.ShowsWords :=
    .one rfl (List.forall_mem_cons.2 ⟨by decide, nofun⟩) (.leaf rfl trivial)
  have hfails : ¬ withSlotless.Compiles root.text := by decide +kernel
  exact ⟨_, hcompile, hshows, hwords, fun hreads => hfails ⟨_, hreads⟩⟩

theorem keepsApart_withSlotless : withSlotless.catalog.KeepsApart := by
  intro ty name _
  refine eq_false_of_ne_true fun hgeneric => ?_
  obtain ⟨m, hm, hgeneric⟩ := List.any_eq_true.1 hgeneric
  cases eq_of_mem_methods_single hm
  cases hgeneric

/-- Each of the three conditions is needed: a type that is not shown with a word, a generic method with
the name of a member of lists, and a method with a type argument but no slot for it keep a text from being
read back. -/
theorem not_readsText_of_compile :
    (¬ ∀ (s : Session Unit) source c, s.CallsByName → s.catalog.KeepsApart → s.catalog.FillsSlots →
      (s.compile source).value = .ok c → c.root.Everywhere s.Shows → s.ReadsText c.root) ∧
    (¬ ∀ (s : Session Unit) source c, s.CallsByName → s.catalog.DeclaresApart → s.catalog.FillsSlots →
      (s.compile source).value = .ok c → c.root.Everywhere s.Shows →
      c.root.Everywhere Expr.ShowsWords → s.ReadsText c.root) ∧
    ¬ ∀ (s : Session Unit) source c, s.CallsByName → s.catalog.KeepsApart →
      (s.compile source).value = .ok c → c.root.Everywhere s.Shows →
      c.root.Everywhere Expr.ShowsWords → s.ReadsText c.root := by
  refine ⟨fun hclaim => ?blank, fun hclaim => ?counting, fun hclaim => ?slotless⟩
  case blank =>
    obtain ⟨c, hcompile, hshows, hfails⟩ := exists_not_readsText_withBlank
    have hcalls : withBlank.CallsByName := ((CallsByName.ofCatalog ∅).addType _ _).addType _ _
    exact hfails (hclaim _ _ _ hcalls (fun _ _ _ => rfl) (fun _ _ _ => nofun) hcompile hshows)
  case counting =>
    obtain ⟨c, hcompile, hshows, hwords, hfails⟩ := exists_not_readsText_withCounting
    have hcalls : withCounting.CallsByName := (CallsByName.ofCatalog _).addVariable _ _
    exact hfails (hclaim _ _ _ hcalls declaresApart_withCounting fillsSlots_withCounting hcompile
      hshows hwords)
  case slotless =>
    obtain ⟨c, hcompile, hshows, hwords, hfails⟩ := exists_not_readsText_withSlotless
    have hcalls : withSlotless.CallsByName := (CallsByName.ofCatalog _).addVariable _ _
    exact hfails (hclaim _ _ _ hcalls keepsApart_withSlotless hcompile hshows hwords)

end Session

end HostExpr
