-- SUMMARY: Compilation depends on what the names mean that occur in the text, and on nothing else by name.
import HostExpr.Proofs.Compile.Soundness
import HostExpr.Proofs.Compile.Trees
import HostExpr.Proofs.Names
import HostExpr.Session.Once

/-!
# Names that do not occur

Whatever is looked up by name while a text is compiled is an identifier among its tokens. So two sessions
with the same helper types and declarations compile a text alike, records and errors included, if they
agree on the identifiers of the text. Each function of the grammar is compared with itself in the other
session, on tokens on whose names the two agree.

Evaluation looks up the variables of the tree, whose names are identifiers of the text as well. Evaluating
a text in one go therefore depends neither on bindings of other names nor on the order of the bindings.
-/

namespace HostExpr

variable {σ : Type}

namespace Session

open Tokens Parsed

/-! ## Sessions that agree -/

/-- The name means the same in two sessions. -/
structure MeansAlike (s s' : Session σ) (name : String) : Prop where
  vars : s.vars.find? name = s'.vars.find? name
  types : s.types.find? name = s'.types.find? name
  functions : s.functions.find? name = s'.functions.find? name

/-- Two sessions have the same helper types and declarations, and agree on every name among the tokens. -/
structure AgreesIn (s s' : Session σ) (ts : Tokens) : Prop where
  helpers : s.helpers = s'.helpers
  catalog : s.catalog = s'.catalog
  names : ∀ l ∈ ts, ∀ name, l.token = .identifier name → s.MeansAlike s' name

namespace AgreesIn

variable {s s' : Session σ} {ts rest : Tokens}

theorem suffix (h : s.AgreesIn s' ts) (hrest : rest <:+ ts) : s.AgreesIn s' rest :=
  ⟨h.helpers, h.catalog, fun l hl => h.names l (hrest.subset hl)⟩

theorem begins (h : s.AgreesIn s' ts) {token : Token} (hbegins : ts.Begins token rest) :
    s.AgreesIn s' rest := h.suffix hbegins.isSuffix

theorem after (h : s.AgreesIn s' ts) {phrase : Phrase σ} {m : phrase.Meaning}
    (hd : ∃ d, Derives s phrase d ts m rest) : s.AgreesIn s' rest := by
  obtain ⟨d, hd⟩ := hd
  exact h.suffix hd.isSuffix

theorem name (h : s.AgreesIn s' ts) {name : String} (hname : ts.Begins (.identifier name) rest) :
    s.MeansAlike s' name := by
  obtain ⟨text, rfl⟩ := hname
  exact h.names _ (List.mem_cons_self ..) name rfl

end AgreesIn

variable {s s' : Session σ}

/-! ## Names, types and members -/

theorem plainName_congr {name : String} (h : s.MeansAlike s' name) {place rest : Tokens}
    (hlt : rest.length < place.length) :
    s.plainName name place rest hlt = s'.plainName name place rest hlt := by
  unfold plainName
  rw [h.vars, h.types]

theorem callNamed_congr {name : String} (h : s.MeansAlike s' name) (args : List (Expr σ))
    {place rest : Tokens} {n : Nat} (hlt : rest.length < n) :
    s.callNamed name args place rest hlt = s'.callNamed name args place rest hlt := by
  unfold callNamed
  rw [h.functions]

theorem plainMember_congr (h : s.catalog = s'.catalog) (object : Expr σ) (name : String)
    {place rest : Tokens} (hlt : rest.length < place.length) :
    s.plainMember object name place rest hlt = s'.plainMember object name place rest hlt := by
  unfold plainMember
  rw [h]

theorem typeArgument_congr {ts : Tokens} (h : s.AgreesIn s' ts) :
    s.typeArgument ts = s'.typeArgument ts := by
  refine andThen_congr rfl fun name rest hlt hname => ?_
  have hname := h.name (yields_identifier.1 hname)
  rw [hname.vars, hname.types]

theorem typeArgumentList_congr {ts : Tokens} (h : s.AgreesIn s' ts) :
    s.typeArgumentList ts = s'.typeArgumentList ts := by
  rw [typeArgumentList.eq_def s, typeArgumentList.eq_def s']
  refine andThen_congr (typeArgument_congr h) fun type rest hlt htype => ?_
  obtain ⟨name, hname, -⟩ := yields_typeArgument.1 htype
  cases hcomma : rest.accept? (.symbol .comma) with
  | none => rfl
  | some more =>
    have hmore := (h.begins hname).begins (accept?_eq_some_iff.1 hcomma)
    have := more.2
    simp only [typeArgumentList_congr hmore]
termination_by ts.length

theorem typeArguments_congr {ts : Tokens} (h : s.AgreesIn s' ts) :
    s.typeArguments ts = s'.typeArguments ts := by
  refine andThen_congr rfl fun _ rest hlt hless => ?_
  rw [typeArgumentList_congr (h.begins (yields_expect.1 hless))]

/-! ## Expressions -/

mutual

theorem expression_congr {ts : Tokens} (h : s.AgreesIn s' ts) :
    s.expression ts = s'.expression ts := by
  rw [expression.eq_def s, expression.eq_def s']
  refine andThen_congr (level_congr h) fun condition rest hlt hcondition => ?_
  have hrest := h.after (derives_level hcondition)
  cases hquestion : rest.accept? (.symbol .question) with
  | none => rfl
  | some yes =>
    obtain ⟨yes, hy⟩ := yes
    have hyes := hrest.begins (accept?_eq_some_iff.1 hquestion)
    refine ite_congr rfl (fun _ => congrArg (under hlt) (congrArg (under hy) ?_)) fun _ => rfl
    rw [expression_congr hyes]
    refine andThen_congr rfl fun left colon hl hleft => ?_
    refine congrArg (under hl) (andThen_congr rfl fun _ no hn hcolon => ?_)
    have hleft : (s.expression yes).Yields left colon :=
      expression_congr hyes ▸ (yields_demand.1 hleft).1
    have hno := (hyes.after (derives_expression hleft)).begins (yields_expect.1 hcolon)
    rw [expression_congr hno]
termination_by 32 * ts.length + 23
decreasing_by
  all_goals have := Precedence.looseness_le .or
  all_goals omega

theorem level_congr {p : Precedence} {ts : Tokens} (h : s.AgreesIn s' ts) :
    s.level p ts = s'.level p ts := by
  rw [level.eq_def s, level.eq_def s']
  refine andThen_congr (operand_congr h) fun left rest hlt hleft => ?_
  rw [chain_congr (h.after (derives_operand hleft))]
termination_by 32 * ts.length + 2 * p.looseness + 4

theorem operand_congr {p : Precedence} {ts : Tokens} (h : s.AgreesIn s' ts) :
    s.operand p ts = s'.operand p ts := by
  rw [operand.eq_def s, operand.eq_def s']
  split
  · have := Precedence.looseness_tighter? ‹_›
    exact level_congr h
  · exact unary_congr h
termination_by 32 * ts.length + 2 * p.looseness + 3

theorem chain_congr {p : Precedence} {start : Tokens} {left : Expr σ} {ts : Tokens}
    (h : s.AgreesIn s' ts) : s.chain p start left ts = s'.chain p start left ts := by
  rw [chain.eq_def s, chain.eq_def s']
  cases hoperator : ts.operator? BinaryOp.symbol p.operators with
  | none => rfl
  | some operation =>
    obtain ⟨op, rest, hlt⟩ := operation
    have := Precedence.looseness_le p
    have hbegins := ((operator?_eq_some_iff BinaryOp.symbol_injective).1 hoperator).2
    have hrest := h.begins hbegins
    refine ite_congr rfl (fun _ => congrArg loose (congrArg (under hlt) ?_)) fun _ => rfl
    rw [operand_congr hrest]
    refine andThen_congr rfl fun right after ha hright => ?_
    have hright : (s.operand p rest).Yields right after :=
      operand_congr hrest ▸ (yields_demand.1 hright).1
    rw [chain_congr (hrest.after (derives_operand hright))]
termination_by 32 * ts.length

theorem unary_congr {ts : Tokens} (h : s.AgreesIn s' ts) : s.unary ts = s'.unary ts := by
  rw [unary.eq_def s, unary.eq_def s']
  cases hoperator : ts.operator? UnaryOp.symbol UnaryOp.all with
  | none => exact primary_congr h
  | some operation =>
    obtain ⟨op, rest, hlt⟩ := operation
    have hbegins := ((operator?_eq_some_iff UnaryOp.symbol_injective).1 hoperator).2
    simp only [primary_congr (h.begins hbegins)]
termination_by 32 * ts.length + 2

theorem primary_congr {ts : Tokens} (h : s.AgreesIn s' ts) : s.primary ts = s'.primary ts := by
  rw [primary.eq_def s, primary.eq_def s']
  cases hopen : ts.accept? (.symbol .leftParen) with
  | some inside =>
    obtain ⟨inside, hlt⟩ := inside
    simp only [group_congr (h.begins (accept?_eq_some_iff.1 hopen))]
  | none =>
    refine andThen_congr (ite_congr rfl (fun _ => named_congr h) fun _ => rfl) fun e rest hlt he => ?_
    have hrest : rest <:+ ts := by
      split at he
      · obtain ⟨d, hd⟩ := derives_named he
        exact hd.isSuffix
      · obtain ⟨token, hbegins, -⟩ := yields_literal.1 he
        exact hbegins.isSuffix
    rw [suffixes_congr (h.suffix hrest)]
termination_by 32 * ts.length + 1

theorem group_congr {ts : Tokens} (h : s.AgreesIn s' ts) : s.group ts = s'.group ts := by
  rw [group.eq_def s, group.eq_def s']
  refine andThen_congr (expression_congr h) fun inner rest hlt hinner => ?_
  refine congrArg (under hlt) (andThen_congr rfl fun _ after ha hclose => ?_)
  have hafter := (h.after (derives_expression hinner)).begins (yields_expect.1 hclose)
  simp only [expression_congr hafter, suffixes_congr hafter]
termination_by 32 * ts.length + 24

theorem named_congr {ts : Tokens} (h : s.AgreesIn s' ts) : s.named ts = s'.named ts := by
  rw [named.eq_def s, named.eq_def s']
  refine andThen_congr rfl fun name rest hlt hname => ?_
  have hname := yields_identifier.1 hname
  cases hopen : rest.accept? (.symbol .leftParen) with
  | none => exact plainName_congr (h.name hname) hlt
  | some inside =>
    obtain ⟨inside, hi⟩ := inside
    have hinside := (h.begins hname).begins (accept?_eq_some_iff.1 hopen)
    simp only [arguments_congr hinside, callNamed_congr (h.name hname)]
termination_by 32 * ts.length

theorem suffixes_congr {e : Expr σ} {ts : Tokens} (h : s.AgreesIn s' ts) :
    s.suffixes e ts = s'.suffixes e ts := by
  rw [suffixes.eq_def s, suffixes.eq_def s']
  cases hopen : ts.accept? (.symbol .leftBracket) with
  | some inside =>
    obtain ⟨inside, hlt⟩ := inside
    have hinside := h.begins (accept?_eq_some_iff.1 hopen)
    cases e.type with
    | list element =>
      refine congrArg loose (congrArg (under hlt) ?_)
      rw [expression_congr hinside]
      refine andThen_congr rfl fun index rest hr hindex => ?_
      refine congrArg (under hr) (andThen_congr rfl fun _ after ha hclose => ?_)
      have hindex : (s.expression inside).Yields index rest :=
        expression_congr hinside ▸ (yields_demand.1 hindex).1
      have hafter := (hinside.after (derives_expression hindex)).begins (yields_expect.1 hclose)
      rw [suffixes_congr hafter]
    | _ => rfl
  | none =>
    cases hdot : ts.accept? (.symbol .dot) with
    | none => rfl
    | some name =>
      obtain ⟨name, hlt⟩ := name
      have hname := h.begins (accept?_eq_some_iff.1 hdot)
      refine ite_congr rfl (fun _ => congrArg loose (congrArg (under hlt) ?_)) fun _ => rfl
      refine andThen_congr (member_congr hname) fun access after ha haccess => ?_
      rw [suffixes_congr (hname.after (derives_member haccess))]
termination_by 32 * ts.length

theorem member_congr {object : Expr σ} {ts : Tokens} (h : s.AgreesIn s' ts) :
    s.member object ts = s'.member object ts := by
  rw [member.eq_def s, member.eq_def s']
  refine andThen_congr rfl fun name rest hlt hname => ?_
  have hrest := h.begins (yields_identifier.1 hname)
  cases hopen : rest.accept? (.symbol .leftParen) with
  | some inside =>
    obtain ⟨inside, hi⟩ := inside
    simp only [arguments_congr (hrest.begins (accept?_eq_some_iff.1 hopen)), h.catalog, h.helpers]
  | none =>
    simp only [h.catalog, plainMember_congr h.catalog]
    refine ite_congr rfl (fun _ => congrArg (under hlt) ?_) fun _ => rfl
    refine andThen_congr (typeArguments_congr hrest) fun typeArgs bracket hb htypes => ?_
    refine congrArg (under hb) (andThen_congr rfl fun _ inside hi hbracket => ?_)
    obtain ⟨types, hless, htypes⟩ := yields_typeArguments.1 htypes
    have hsuffix := (typeArguments_of_yields htypes).isSuffix
    have hinside := ((hrest.begins hless).suffix hsuffix).begins (yields_expect.1 hbracket)
    rw [arguments_congr hinside]
termination_by 32 * ts.length

theorem arguments_congr {ts : Tokens} (h : s.AgreesIn s' ts) : s.arguments ts = s'.arguments ts := by
  rw [arguments.eq_def s, arguments.eq_def s']
  cases ts.accept? (.symbol .rightParen) with
  | some rest => rfl
  | none => exact argumentList_congr h
termination_by 32 * ts.length + 25

theorem argumentList_congr {ts : Tokens} (h : s.AgreesIn s' ts) :
    s.argumentList ts = s'.argumentList ts := by
  rw [argumentList.eq_def s, argumentList.eq_def s']
  rw [expression_congr h]
  refine andThen_congr rfl fun arg rest hlt harg => ?_
  have harg : (s.expression ts).Yields arg rest := expression_congr h ▸ (yields_demand.1 harg).1
  cases hcomma : rest.accept? (.symbol .comma) with
  | none => rfl
  | some more =>
    obtain ⟨more, hm⟩ := more
    have hmore := (h.after (derives_expression harg)).begins (accept?_eq_some_iff.1 hcomma)
    simp only [argumentList_congr hmore]
termination_by 32 * ts.length + 24

end

/-- Two sessions that agree on the names in a text compile it alike, with the same records. -/
theorem compile_congr {source : String}
    (h : ∀ text, lex source = .ok text → s.AgreesIn s' text.tokens) :
    s.compile source = s'.compile source := by
  unfold compile
  cases hlex : lex source with
  | error e => rfl
  | ok text =>
    have hwhole : s.wholeExpression text.tokens = s'.wholeExpression text.tokens :=
      andThen_congr (expression_congr (h text hlex)) fun _ _ _ _ => rfl
    simp only [hwhole]

end Session

/-! ## Evaluation -/

namespace Expr

variable {bindings bindings' : Names Value}

/-- Two tables of bindings agree on a node, if it is a variable. -/
def BoundAlike (bindings bindings' : Names Value) : Expr σ → Prop
  | var name _ => bindings.find? name = bindings'.find? name
  | _ => True

theorem arguments_congr {args : List (Expr σ)}
    (h : ∀ arg ∈ args, arg.answer bindings = arg.answer bindings') (params : List Ty) :
    arguments bindings args params = arguments bindings' args params := by
  induction args generalizing params with
  | nil => rfl
  | cons arg args ih =>
    obtain ⟨harg, hargs⟩ := List.forall_mem_cons.1 h
    cases params with
    | nil => rfl
    | cons param params => rw [arguments, arguments, harg, ih hargs]

/-- Evaluation depends on the bindings of the variables in the tree only. -/
theorem answer_congr {e : Expr σ} (h : e.Everywhere (BoundAlike bindings bindings')) :
    e.answer bindings = e.answer bindings' := by
  induction e with
  | bool | number | string | enum | typeName | castTarget => rfl
  | var name type =>
    have hname : bindings.find? name = bindings'.find? name := h.here
    rw [answer, answer, hname]
  | logicalUnary _ _ ih | arithmeticUnary _ _ _ ih | convert _ _ ih | property _ _ ih =>
    rw [answer, answer, ih (h.first rfl)]
  | logical _ _ _ ih₁ ih₂ | arithmetic _ _ _ _ ih₁ ih₂ | comparison _ _ _ ih₁ ih₂
  | element _ _ _ ih₁ ih₂ =>
    rw [answer, answer, ih₁ (h.first rfl), ih₂ (h.second rfl)]
  | conditional _ _ _ ih₁ ih₂ ih₃ =>
    rw [answer, answer, ih₁ (h.first rfl), ih₂ (h.second rfl), ih₃ (h.third rfl)]
  | call callee args ih =>
    rw [answer, answer, arguments_congr fun arg harg => ih arg harg (h.child harg)]
  | method object callee args iho ih =>
    rw [answer, answer, iho (h.first rfl),
      arguments_congr fun arg harg => ih arg harg (h.child (List.mem_cons_of_mem _ harg))]

end Expr

/-! ## Names in a text -/

/-- The identifiers among the tokens of a text. -/
def namesIn (source : String) : List String :=
  match lex source with
  | .ok text => text.tokens.filterMap (·.token.identifier?)
  | .error _ => []

theorem mem_namesIn {source name : String} {text : Lexed} (hlex : lex source = .ok text) {l : Lexeme}
    (hl : l ∈ text.tokens) (hname : l.token = .identifier name) : name ∈ namesIn source := by
  unfold namesIn
  rw [hlex]
  exact List.mem_filterMap.2 ⟨l, hl, hname ▸ rfl⟩

namespace Session

/-- Every rule of the grammar takes the name of a variable from a token. -/
theorem rules_boundAlike (s : Session σ) (bindings bindings' : Names Value) :
    s.Rules (fun token => ∀ name, token = .identifier name → bindings.find? name = bindings'.find? name)
      (Expr.BoundAlike bindings bindings') where
  literal := by
    intro token e _ h
    cases token <;> cases h <;> trivial
  conditional := fun _ _ _ => trivial
  operation := by
    intro p op left right _ _ _
    cases op <;> trivial
  sign := by
    intro op operand _ _
    cases op <;> trivial
  cast := fun _ _ _ => trivial
  call := fun _ _ _ _ => trivial
  var := fun hname _ => hname _ rfl
  enumMember := fun _ _ _ => trivial
  typeName := fun _ _ _ _ => trivial
  index := fun _ _ => trivial
  property := fun _ _ _ => trivial
  methodCall := fun _ _ _ _ => trivial
  genericCall := fun _ _ _ _ _ _ _ => trivial

/-- A session of bindings differs from the prelude in its variables, each of the type of its value. -/
theorem ofBindings_eq (bindings : Names Value) :
    (ofBindings bindings : Session σ) = (new.addPrelude : Session σ).withVars
      (.ofList (bindings.entries.map fun (name, v) => (name, v.type))) := by
  have hfold := foldl_addVariable (new.addPrelude : Session σ)
    (bindings.entries.map fun (name, v) => (name, v.type))
  rw [List.foldl_map] at hfold
  exact hfold

/-- A variable of a session of bindings is a binding. -/
theorem find?_vars_ofBindings {bindings : Names Value} (h : bindings.Distinct) (name : String) :
    (ofBindings bindings : Session σ).vars.find? name = (bindings.find? name).map Value.type := by
  rw [ofBindings_eq]
  show (Names.ofList _).find? name = _
  rw [Names.ofList, Names.find?_insertAll, Names.find?_empty, Option.or_none, ← List.map_reverse,
    Names.find?_map, h.find?_eq_of_perm bindings.entries.reverse_perm]

/-- Sessions of bindings agree on the names that the bindings agree on. -/
theorem meansAlike_ofBindings {bindings bindings' : Names Value} (hb : bindings.Distinct)
    (hb' : bindings'.Distinct) {name : String} (h : bindings.find? name = bindings'.find? name) :
    (ofBindings bindings : Session σ).MeansAlike (ofBindings bindings') name where
  vars := by rw [find?_vars_ofBindings hb, find?_vars_ofBindings hb', h]
  types := by
    rw [ofBindings_eq, ofBindings_eq]
    rfl
  functions := by
    rw [ofBindings_eq, ofBindings_eq]
    rfl

end Session

/-- Two tables of bindings that agree on the names in a text evaluate it alike. -/
theorem evaluateOnce_congr {source : String} {bindings bindings' : Names Value}
    (hb : bindings.Distinct) (hb' : bindings'.Distinct)
    (h : ∀ name ∈ namesIn source, bindings.find? name = bindings'.find? name) (host : σ) :
    evaluateOnce source bindings host = evaluateOnce source bindings' host := by
  have hagrees : ∀ text, lex source = .ok text →
      (Session.ofBindings bindings : Session σ).AgreesIn (.ofBindings bindings') text.tokens := by
    intro text hlex
    refine ⟨?_, ?_, fun l hl name hname => ?_⟩
    · rw [Session.ofBindings_eq, Session.ofBindings_eq]
      rfl
    · rw [Session.ofBindings_eq, Session.ofBindings_eq]
      rfl
    · exact Session.meansAlike_ofBindings hb hb' (h name (mem_namesIn hlex hl hname))
  unfold evaluateOnce
  rw [← Session.compile_congr hagrees]
  cases hcompile : (Session.ofBindings bindings : Session σ).compile source with
  | mk log result =>
    cases result with
    | error e => rfl
    | ok c =>
      have hok : ((Session.ofBindings bindings : Session σ).compile source).value = .ok c := by
        rw [hcompile]
      have hbound := Session.everywhere_of_compile hok (Session.rules_boundAlike _ bindings bindings')
        fun text hlex l hl name hname => h name (mem_namesIn hlex hl hname)
      have hevaluate : c.evaluate bindings host = c.evaluate bindings' host := by
        unfold Compiled.evaluate Compiled.run Expr.evaluate
        rw [Expr.answer_congr hbound]
      simp only [hevaluate]

/-- What a text compiles to, with all records and errors, is decided by the helper types, the declarations,
and what the identifiers of the text mean. Evaluating it in one go is decided by the bindings of its
identifiers, in whatever order the bindings are gone through. -/
theorem namesIn_suffice (source : String) :
    (∀ s s' : Session σ, s.helpers = s'.helpers → s.catalog = s'.catalog →
      (∀ name ∈ namesIn source, s.MeansAlike s' name) → s.compile source = s'.compile source) ∧
    ∀ bindings bindings' : Names Value, bindings.Distinct → bindings'.Distinct →
      (∀ name ∈ namesIn source, bindings.find? name = bindings'.find? name) →
      ∀ order order', order.Perm bindings.entries → order'.Perm bindings'.entries → ∀ host : σ,
        evaluateOnce source ⟨order⟩ host = evaluateOnce source ⟨order'⟩ host := by
  constructor
  · intro s s' hhelpers hcatalog hnames
    exact Session.compile_congr fun text hlex =>
      ⟨hhelpers, hcatalog, fun l hl name hname => hnames name (mem_namesIn hlex hl hname)⟩
  · intro bindings bindings' hb hb' hnames order order' horder horder' host
    refine evaluateOnce_congr (hb.of_perm horder) (hb'.of_perm horder') (fun name hname => ?_) host
    rw [hb.find?_eq_of_perm horder, hb'.find?_eq_of_perm horder', hnames name hname]

theorem namesIn_suffice_sum :
    (Session.new.addVariable "x" .int : Session Unit).compile "x + 1" =
        ((Session.new.addVariable "y" .bool).addVariable "x" .int).compile "x + 1" ∧
      evaluateOnce "x + 1" ⟨[("x", .number (.ofInt .int 2)), ("y", .null)]⟩ () =
        evaluateOnce "x + 1" ⟨[("z", .bool true), ("x", .number (.ofInt .int 2))]⟩ () := by
  have hnames : namesIn "x + 1" = ["x"] := by decide +kernel
  have hx : ∀ {P : String → Prop}, P "x" → ∀ name ∈ namesIn "x + 1", P name := by
    intro P h
    rw [hnames]
    exact List.forall_mem_cons.2 ⟨h, nofun⟩
  constructor
  · refine (namesIn_suffice "x + 1").1 _ _ rfl rfl (hx ⟨?_, rfl, rfl⟩)
    rfl
  · exact (namesIn_suffice "x + 1").2 _ _ (Names.distinct_ofList [("y", .null), ("x", _)])
      (Names.distinct_ofList [("z", .bool true), ("x", _)]) (hx rfl) _ _ (.refl _) (.swap _ _ _) ()

end HostExpr
