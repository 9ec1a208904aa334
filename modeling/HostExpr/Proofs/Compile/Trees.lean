-- SUMMARY: What holds at every node of a tree that a text compiles to.
import HostExpr.Compiled
import HostExpr.Proofs.Compile.Soundness
import HostExpr.Proofs.Compile.Unambiguous
import HostExpr.Proofs.Expr.Nodes
import HostExpr.Proofs.Overload

/-!
# Trees of texts

What every rule of the grammar gives to the node that it builds holds at every node of a compiled tree
(`Session.Rules`). A type that waits for the operand of a cast is a tree on the way there; whatever takes
an operand leaves it out by its role.

`Session.Builds` says how a session builds a single node: which roles its operands play, which type it
has, and where its name was found. Every node of a compiled tree is built so.
-/

namespace HostExpr

variable {σ : Type} {s : Session σ}

/-! ## Nodes of a session -/

/-- A call on a type, with arguments of the given types, means the method. -/
def Session.Resolves (s : Session σ) (ty : Ty) (callee : Method σ) (args : List Ty) : Prop :=
  (∃ name, (Overload.resolve s.catalog s.helpers ty name args).value = .ok callee) ∨
    ∃ name typeArgs pattern,
      (Overload.resolveGeneric s.catalog ty name typeArgs args).value = .ok pattern ∧
        callee = pattern.instantiate typeArgs

/-- A generic method that a call means has as many type arguments as generic parameters, and they are put in
place of its slots. -/
theorem Session.Resolves.exists_pattern {ty : Ty} {callee : Method σ} {args : List Ty}
    (h : s.Resolves ty callee args) (hgeneric : callee.isGeneric) :
    ∃ pattern : Method σ, callee = pattern.instantiate callee.typeArgs ∧
      pattern.genericParams.length = callee.typeArgs.length := by
  rcases h with ⟨name, hresolve⟩ | ⟨name, typeArgs, pattern, hresolve, rfl⟩
  · rw [Overload.isGeneric_of_resolve hresolve] at hgeneric
    cases hgeneric
  · exact ⟨pattern, rfl, (Overload.mem_generics.1 (Overload.mem_of_resolveGeneric hresolve)).2.2.1⟩

/-- The node is one that the session builds from its parts. -/
def Session.Builds (s : Session σ) : Expr σ → Prop
  | .bool _ | .number _ _ | .string _ | .enum _ => True
  | .logicalUnary op operand => op = .not ∧ operand.isBoolean
  | .logical op left right => op ≠ .not ∧ left.isBoolean ∧ right.isBoolean
  | .arithmeticUnary op operand type =>
    (op = .sub ∨ op = .complement) ∧ operand.isNumeric ∧ type = operand.type
  | .arithmetic op left right type =>
    op ≠ .complement ∧ left.isNumeric ∧ right.isNumeric ∧ type = left.type.promote right.type
  | .comparison _ left right => left.isNumeric ∧ right.isNumeric
  | .conditional condition left right =>
    condition.isBoolean ∧ left.isNumeric ∧ right.isNumeric
  | .var name type => s.vars.find? name = some type
  | .typeName name type => s.vars.find? name = none ∧ s.types.find? name = some type
  | .castTarget _ => False
  | .convert type operand => (∃ name, s.types.find? name = some type) ∧ operand.isObject
  | .call callee args =>
    (∃ name, s.functions.find? name = some callee) ∧ args.length = callee.arity
  | .property object member =>
    object.type ≠ .void ∧ ∃ name others, s.catalog.members object.type name = member :: others
  | .method object callee args =>
    object.type ≠ .void ∧ s.Resolves object.type callee (args.map Expr.type)
  | .element list index type => list.type = .list type ∧ index.isNumeric

namespace Expr

/-- What plays a role has a value. -/
theorem isObject_of_plays {e : Expr σ} {role : Role} (h : e.plays role) : e.isObject := by
  cases e <;> cases role <;> first | rfl | exact h

/-- What has no value is a type that waits for the operand of a cast. -/
theorem exists_castTarget {e : Expr σ} (h : e.isObject = false) : ∃ type, e = .castTarget type := by
  cases e with
  | castTarget type => exact ⟨type, rfl⟩
  | _ => cases h

theorem isObject_of_isNumeric {e : Expr σ} (h : e.isNumeric) : e.isObject := by
  have hrole : e.plays .numeric := h
  exact isObject_of_plays hrole

theorem isObject_of_isBoolean {e : Expr σ} (h : e.isBoolean) : e.isObject := by
  have hrole : e.plays .boolean := h
  exact isObject_of_plays hrole

end Expr

/-! ## Operators -/

/-- The operators of the levels take two operands. -/
theorem Precedence.binary_of_mem_operators {p : Precedence} {op : BinaryOp} (h : op ∈ p.operators) :
    op ≠ .logical .not ∧ op ≠ .arithmetic .complement := by
  revert h
  cases p <;> rcases op with op | op | op <;> cases op <;> decide

namespace Session

/-- An operation is built from operands that play its role. -/
theorem builds_combine {p : Precedence} {op : BinaryOp} (hop : op ∈ p.operators) {left right : Expr σ}
    (hleft : left.plays op.role) (hright : right.plays op.role) : s.Builds (op.combine left right) := by
  obtain ⟨hnot, hcomplement⟩ := Precedence.binary_of_mem_operators hop
  cases op with
  | logical op => exact ⟨fun h => hnot (h ▸ rfl), hleft, hright⟩
  | arithmetic op => exact ⟨fun h => hcomplement (h ▸ rfl), hleft, hright, rfl⟩
  | comparison op => exact ⟨hleft, hright⟩

theorem builds_apply {op : UnaryOp} (hop : op ∈ UnaryOp.all) {operand : Expr σ}
    (hrole : operand.plays op.role) : s.Builds (op.apply operand) := by
  cases op with
  | not => exact ⟨rfl, hrole⟩
  | arithmetic op =>
    refine ⟨?_, hrole, rfl⟩
    revert hop
    cases op <;> decide

theorem builds_literal {token : Token} {e : Expr σ} (h : Expr.ofLiteral? token = some e) :
    s.Builds e := by
  cases token <;> cases h <;> trivial

end Session

theorem Expr.ofLiteral?_leaf {token : Token} {e : Expr σ} (h : Expr.ofLiteral? token = some e) :
    e.isObject ∧ e.children = [] := by
  cases token <;> cases h <;> exact ⟨rfl, rfl⟩

theorem BinaryOp.children_combine (op : BinaryOp) (left right : Expr σ) :
    (op.combine left right).children = [left, right] := by
  cases op <;> rfl

theorem UnaryOp.children_apply (op : UnaryOp) (operand : Expr σ) :
    (op.apply operand).children = [operand] := by
  cases op <;> rfl

/-! ## Rules and the nodes they build -/

/-- The last argument is no type name: before the closing parenthesis the name would wait for the operand
of a cast. -/
def Expr.LastIsValue (args : List (Expr σ)) : Prop :=
  ∀ arg ∈ args.getLast?, arg.isTypeReference = false

/-- Every rule of the grammar gives `P` to the node that it builds, from tokens that all satisfy `read`. -/
structure Session.Rules (s : Session σ) (read : Token → Prop) (P : Expr σ → Prop) : Prop where
  literal {token : Token} {e : Expr σ} : read token → Expr.ofLiteral? token = some e → P e
  conditional {condition left right : Expr σ} : condition.isBoolean → left.isNumeric →
    right.isNumeric → P (.conditional condition left right)
  operation {p : Precedence} {op : BinaryOp} {left right : Expr σ} : op ∈ p.operators →
    left.plays op.role → right.plays op.role → P (op.combine left right)
  sign {op : UnaryOp} {operand : Expr σ} : op ∈ UnaryOp.all → operand.plays op.role →
    P (op.apply operand)
  cast {name : String} {type : Ty} {operand : Expr σ} : read (.identifier name) →
    s.types.find? name = some type → operand.isObject → P (.convert type operand)
  call {name : String} {callee : HostFunction σ} {args : List (Expr σ)} : read (.identifier name) →
    s.functions.find? name = some callee → args.length = callee.arity → Expr.LastIsValue args →
    P (.call callee args)
  var {name : String} {type : Ty} : read (.identifier name) → s.vars.find? name = some type →
    P (.var name type)
  enumMember {name member : String} {enum : EnumType} {value : Int64} :
    s.types.find? name = some (.enum enum) → read (.identifier member) →
    enum.valueOf? member = some value → P (.enum ⟨enum, value⟩)
  typeName {name : String} {type : Ty} : read (.identifier name) → s.vars.find? name = none →
    s.types.find? name = some type → (∀ enum, type ≠ .enum enum) → P (.typeName name type)
  index {list index : Expr σ} {type : Ty} : list.type = .list type → index.isNumeric →
    P (.element list index type)
  property {name : String} {object : Expr σ} {member : Member σ} {others : List (Member σ)} :
    read (.identifier name) → object.type ≠ .void →
    s.catalog.members object.type name = member :: others → P (.property object member)
  methodCall {name : String} {object : Expr σ} {callee : Method σ} {args : List (Expr σ)} :
    read (.identifier name) → object.type ≠ .void → Expr.LastIsValue args →
    (Overload.resolve s.catalog s.helpers object.type name (args.map Expr.type)).value = .ok callee →
    P (.method object callee args)
  genericCall {name : String} {typeArgs : List Ty} {object : Expr σ} {pattern : Method σ}
      {args : List (Expr σ)} :
    read (.identifier name) → typeArgs ≠ [] →
    (∀ type ∈ typeArgs, ∃ arg, (s.vars.find? arg <|> s.types.find? arg) = some type) →
    object.type ≠ .void → Expr.LastIsValue args → s.catalog.hasGenericMethod object.type name →
    (Overload.resolveGeneric s.catalog object.type name typeArgs (args.map Expr.type)).value =
      .ok pattern →
    P (.method object (pattern.instantiate typeArgs) args)

/-- The property holds everywhere in the tree of a phrase, if it does in the expression on the left of
it. Nothing is said of a type that waits for the operand of a cast, and no suffix follows one. -/
def Phrase.Holds (P : Expr σ → Prop) : (phrase : Phrase σ) → phrase.Meaning → Tokens → Prop
  | .expression, e, _ | .level _, e, _ | .operand _, e, _ | .unary, e, _ | .primary, e, _
  | .named, e, _ => e.isObject → e.Everywhere P
  | .chain _ left, e, _ => (left.isObject → left.Everywhere P) → e.isObject → e.Everywhere P
  | .suffixes left, e, ts =>
    (left.isObject = false → ts.kind = .symbol .rightParen) →
      (left.isObject → left.Everywhere P) → e.isObject → e.Everywhere P
  | .member object, e, _ => object.type ≠ .void → object.Everywhere P → e.Everywhere P
  | .arguments, args, _ => (∀ arg ∈ args, arg.Everywhere P) ∧ Expr.LastIsValue args
  | .argumentList, args, _ =>
    (∀ arg ∈ args, arg.Everywhere P) ∧ Expr.LastIsValue args ∧ args ≠ []

theorem TypeArguments.ne_nil {ts rest : Tokens} {types : List Ty}
    (h : TypeArguments s ts types rest) : types ≠ [] := by
  cases h <;> exact List.cons_ne_nil _ _

/-- Every type argument is named in the session. -/
theorem TypeArguments.named {ts rest : Tokens} {types : List Ty} (h : TypeArguments s ts types rest) :
    ∀ type ∈ types, ∃ arg, (s.vars.find? arg <|> s.types.find? arg) = some type := by
  induction h with
  | last _ htype _ => exact List.forall_mem_cons.2 ⟨⟨_, htype⟩, nofun⟩
  | more _ htype _ _ ih => exact List.forall_mem_cons.2 ⟨⟨_, htype⟩, ih⟩

theorem Tokens.Begins.read {ts rest : Tokens} {token : Token} (h : ts.Begins token rest)
    {read : Token → Prop} (hread : ∀ l ∈ ts, read l.token) : read token := by
  obtain ⟨text, rfl⟩ := h
  exact hread _ (List.mem_cons_self ..)

open HostExpr.Expr in
theorem Derives.holds {read : Token → Prop} {P : Expr σ → Prop} (hrules : s.Rules read P)
    {phrase : Phrase σ} {d : Derivation} {ts rest : Tokens} {m : phrase.Meaning}
    (h : Derives s phrase d ts m rest) (hread : ∀ l ∈ ts, read l.token) : phrase.Holds P m ts := by
  have hsuffix : ∀ {ts rest : Tokens}, (∀ l ∈ ts, read l.token) → rest <:+ ts →
      ∀ l ∈ rest, read l.token := fun hread hrest l hl => hread l (hrest.subset hl)
  induction h with
  | condition _ ih | tighter _ _ ih | tightest _ _ ih | noSign _ ih => exact ih hread
  | conditional hor hbool hyes hleft hnum hcolon _ hnum' ih₁ ih₂ ih₃ =>
    intro _
    have hread₂ := hsuffix hread (hyes.isSuffix.trans hor.isSuffix)
    have hread₃ := hsuffix hread₂ (hcolon.isSuffix.trans hleft.isSuffix)
    have hcondition := ih₁ hread (isObject_of_isBoolean hbool)
    have hleft := ih₂ hread₂ (isObject_of_isNumeric hnum)
    have hright := ih₃ hread₃ (isObject_of_isNumeric hnum')
    refine everywhere_iff.2 ⟨hrules.conditional hbool hnum hnum', ?_⟩
    simp only [children, List.forall_mem_cons]
    exact ⟨hcondition, hleft, hright, nofun⟩
  | level hoperand _ ih₁ ih₂ => exact ih₂ (hsuffix hread hoperand.isSuffix) (ih₁ hread)
  | named hnamed _ ih₁ ih₂ =>
    refine ih₂ (hsuffix hread hnamed.isSuffix) (fun hwaiting => ?_) (ih₁ hread)
    obtain ⟨type, rfl⟩ := exists_castTarget hwaiting
    obtain ⟨-, -, -, -, hkind⟩ := hnamed.waits type rfl
    exact hkind
  | noOperation => exact id
  | noSuffix => exact fun _ => id
  | @operations p op _ _ _ _ _ _ left right _ _ hop hleft hbegins hoperand hright _ ih₁ ih₂ =>
    intro ih
    have hread₁ := hsuffix hread hbegins.isSuffix
    refine ih₂ (hsuffix hread₁ hoperand.isSuffix) fun _ =>
      everywhere_iff.2 ⟨hrules.operation hop hleft hright, ?_⟩
    rw [op.children_combine]
    simp only [List.forall_mem_cons]
    exact ⟨ih (isObject_of_plays hleft), ih₁ hread₁ (isObject_of_plays hright), nofun⟩
  | @operation p op _ _ _ _ left right _ hop hleft hbegins _ hright ih₁ =>
    intro ih _
    refine everywhere_iff.2 ⟨hrules.operation hop hleft hright, ?_⟩
    rw [op.children_combine]
    simp only [List.forall_mem_cons]
    exact ⟨ih (isObject_of_plays hleft),
      ih₁ (hsuffix hread hbegins.isSuffix) (isObject_of_plays hright), nofun⟩
  | @sign op _ _ _ _ operand hop hbegins _ hrole ih =>
    intro _
    refine everywhere_iff.2 ⟨hrules.sign hop hrole, ?_⟩
    rw [op.children_apply]
    simp only [List.forall_mem_cons]
    exact ⟨ih (hsuffix hread hbegins.isSuffix) (isObject_of_plays hrole), nofun⟩
  | cast hopen hinner hclose _ hobject _ ih =>
    intro _
    have hread₁ := hsuffix hread (hinner.isSuffix.trans hopen.isSuffix)
    obtain ⟨name, hname, -, htype, -⟩ := hinner.waits _ rfl
    have hname := hname.read (hsuffix hread hopen.isSuffix)
    refine everywhere_iff.2 ⟨hrules.cast hname htype hobject, ?_⟩
    simp only [children, List.forall_mem_cons]
    exact ⟨ih (hsuffix hread₁ hclose.isSuffix) hobject, nofun⟩
  | group hopen hinner hobject hclose _ ih₁ ih₂ =>
    have hread₁ := hsuffix hread hopen.isSuffix
    exact ih₂ (hsuffix hread₁ (hclose.isSuffix.trans hinner.isSuffix))
      (fun hwaiting => nomatch hobject.symm.trans hwaiting) (ih₁ hread₁)
  | literal hbegins hbase _ ih =>
    obtain ⟨hobject, hchildren⟩ := ofLiteral?_leaf hbase
    refine ih (hsuffix hread hbegins.isSuffix) (fun hwaiting => nomatch hobject.symm.trans hwaiting)
      fun _ => ?_
    refine everywhere_iff.2 ⟨hrules.literal (hbegins.read hread) hbase, ?_⟩
    rw [hchildren]
    nofun
  | call hname hopen _ hcallee harity ih =>
    intro _
    obtain ⟨hargs, hlast⟩ := ih (hsuffix hread (hopen.isSuffix.trans hname.isSuffix))
    exact everywhere_iff.2 ⟨hrules.call (hname.read hread) hcallee harity hlast, hargs⟩
  | var hname htype =>
    intro _
    exact everywhere_iff.2 ⟨hrules.var (hname.read hread) htype, nofun⟩
  | castTarget => exact nofun
  | enumMember hname _ htype hdot hmember hvalue =>
    intro _
    have hread₁ := hsuffix hread (hdot.isSuffix.trans hname.isSuffix)
    exact everywhere_iff.2 ⟨hrules.enumMember htype (hmember.read hread₁) hvalue, nofun⟩
  | typeName hname hvar htype _ henum =>
    intro _
    exact everywhere_iff.2 ⟨hrules.typeName (hname.read hread) hvar htype henum, nofun⟩
  | index hopen htype hindex hnum hclose _ ih₁ ih₂ =>
    intro hwaiting ih
    have hread₁ := hsuffix hread hopen.isSuffix
    refine ih₂ (hsuffix hread₁ (hclose.isSuffix.trans hindex.isSuffix)) (fun hfalse => nomatch hfalse)
      fun _ => everywhere_iff.2 ⟨hrules.index htype hnum, ?_⟩
    have hobject : Expr.isObject _ = true :=
      eq_true_of_ne_false fun hfalse => absurd (hwaiting hfalse) (hopen.kind_ne nofun)
    simp only [children, List.forall_mem_cons]
    exact ⟨ih hobject, ih₁ hread₁ (isObject_of_isNumeric hnum), nofun⟩
  | access hdot hobject hvoid hmember _ ih₁ ih₂ =>
    intro _ ih
    have hread₁ := hsuffix hread hdot.isSuffix
    refine ih₂ (hsuffix hread₁ hmember.isSuffix) (fun hwaiting => ?_)
      fun _ => ih₁ hread₁ hvoid (ih hobject)
    obtain ⟨type, rfl⟩ := exists_castTarget hwaiting
    exact absurd rfl (hmember.waits type)
  | methodCall hname hopen _ hcallee ih =>
    intro hvoid hobject
    obtain ⟨hargs, hlast⟩ := ih (hsuffix hread (hopen.isSuffix.trans hname.isSuffix))
    exact everywhere_iff.2 ⟨hrules.methodCall (hname.read hread) hvoid hlast hcallee,
      List.forall_mem_cons.2 ⟨hobject, hargs⟩⟩
  | genericCall hname hgeneric hless htypes hopen _ hcallee ih =>
    intro hvoid hobject
    have hread₁ := hsuffix hread (htypes.isSuffix.trans (hless.isSuffix.trans hname.isSuffix))
    obtain ⟨hargs, hlast⟩ := ih (hsuffix hread₁ hopen.isSuffix)
    exact everywhere_iff.2 ⟨hrules.genericCall (hname.read hread) htypes.ne_nil htypes.named hvoid
      hlast hgeneric hcallee, List.forall_mem_cons.2 ⟨hobject, hargs⟩⟩
  | property hname _ hmember =>
    intro hvoid hobject
    exact everywhere_iff.2 ⟨hrules.property (hname.read hread) hvoid hmember,
      List.forall_mem_cons.2 ⟨hobject, nofun⟩⟩
  | noArgument => exact ⟨nofun, nofun⟩
  | someArguments _ ih =>
    obtain ⟨hargs, hlast, -⟩ := ih hread
    exact ⟨hargs, hlast⟩
  | lastArgument harg hobject hclose ih =>
    refine ⟨List.forall_mem_cons.2 ⟨ih hread hobject, nofun⟩, ?_, List.cons_ne_nil _ _⟩
    rintro _ ⟨⟩
    refine eq_false_of_ne_true fun htype => ?_
    obtain ⟨d, hd⟩ := harg.namesType htype
    exact hd.kind_ne_rightParen htype hobject hclose.kind_eq
  | argument harg hobject hcomma _ ih₁ ih₂ =>
    obtain ⟨hargs, hlast, hne⟩ := ih₂ (hsuffix hread (hcomma.isSuffix.trans harg.isSuffix))
    refine ⟨List.forall_mem_cons.2 ⟨ih₁ hread hobject, hargs⟩, ?_, List.cons_ne_nil _ _⟩
    obtain ⟨next, others, rfl⟩ := List.exists_cons_of_ne_nil hne
    exact hlast

theorem Session.rules_builds (s : Session σ) : s.Rules (fun _ => True) s.Builds where
  literal := fun _ => builds_literal
  conditional := fun hcondition hleft hright => ⟨hcondition, hleft, hright⟩
  operation := fun hop hleft hright => builds_combine hop hleft hright
  sign := fun hop hrole => builds_apply hop hrole
  cast := fun _ htype hobject => ⟨⟨_, htype⟩, hobject⟩
  call := fun _ hcallee harity _ => ⟨⟨_, hcallee⟩, harity⟩
  var := fun _ htype => htype
  enumMember := fun _ _ _ => trivial
  typeName := fun _ hvar htype _ => ⟨hvar, htype⟩
  index := fun htype hnum => ⟨htype, hnum⟩
  property := fun _ hvoid hmember => ⟨hvoid, _, _, hmember⟩
  methodCall := fun _ hvoid _ hcallee => ⟨hvoid, .inl ⟨_, hcallee⟩⟩
  genericCall := fun _ _ _ hvoid _ _ hcallee => ⟨hvoid, .inr ⟨_, _, _, hcallee, rfl⟩⟩

/-! ## Compiled trees -/

/-- The text compiles in the session. -/
def Session.Compiles (s : Session σ) (source : String) : Prop :=
  ∃ c, (s.compile source).value = .ok c

instance (s : Session σ) (source : String) : Decidable (s.Compiles source) :=
  match h : (s.compile source).value with
  | .ok c => isTrue ⟨c, h⟩
  | .error _ => isFalse fun ⟨_, hc⟩ => nomatch h.symm.trans hc

/-- What a text compiles to is read from its tokens, to the last one. -/
theorem Session.yields_of_compile {source : String} {c : Compiled σ}
    (h : (s.compile source).value = .ok c) :
    ∃ text, lex source = .ok text ∧ (s.expression text.tokens).Yields c.root [] := by
  unfold Session.compile at h
  split at h
  · cases h
  · rename_i text hlex
    split at h
    · cases h
    · rename_i log root rest hlt hparsed
      cases h
      have hyields : (s.wholeExpression text.tokens).Yields root rest := ⟨log, hlt, hparsed⟩
      exact ⟨text, hlex, (yields_wholeExpression.1 hyields).2⟩

/-- What is read from all of its tokens is what a text compiles to. -/
theorem Session.compile_of_yields {source : String} {text : Lexed} {e : Expr σ}
    (hlex : lex source = .ok text) (h : (s.expression text.tokens).Yields e []) :
    (s.compile source).value = .ok ⟨source, e⟩ := by
  obtain ⟨log, hlt, hparsed⟩ := yields_wholeExpression.2 ⟨rfl, h⟩
  unfold compile
  rw [hlex]
  simp only
  rw [hparsed]

/-- What a text compiles to is the tree of its tokens. -/
theorem Session.derives_of_compile {source : String} {c : Compiled σ}
    (h : (s.compile source).value = .ok c) :
    ∃ text d, lex source = .ok text ∧ Derives s .expression d text.tokens c.root [] := by
  obtain ⟨text, hlex, hyields⟩ := yields_of_compile h
  obtain ⟨d, hd⟩ := derives_expression hyields
  exact ⟨text, d, hlex, hd⟩

/-- What every rule of the grammar gives to the node that it builds holds everywhere in a compiled
tree. -/
theorem Session.everywhere_of_compile {source : String} {c : Compiled σ}
    (h : (s.compile source).value = .ok c) {read : Token → Prop} {P : Expr σ → Prop}
    (hrules : s.Rules read P)
    (hread : ∀ text, lex source = .ok text → ∀ l ∈ text.tokens, read l.token) :
    c.root.Everywhere P := by
  obtain ⟨text, d, hlex, hd⟩ := derives_of_compile h
  refine hd.holds hrules (hread text hlex) (eq_true_of_ne_false fun hwaiting => ?_)
  -- A type that waits stands before a closing parenthesis, and at the end there is none.
  obtain ⟨type, htype⟩ := Expr.exists_castTarget hwaiting
  obtain ⟨-, -, -, -, hkind⟩ := hd.waits type htype
  cases hkind

/-- The session builds every node of a compiled tree. -/
theorem Session.builds_of_compile {source : String} {c : Compiled σ}
    (h : (s.compile source).value = .ok c) : c.root.Everywhere s.Builds :=
  everywhere_of_compile h s.rules_builds fun _ _ _ _ => trivial

end HostExpr
