-- SUMMARY: The lexemes of an expression are read back as that expression.
import HostExpr.Proofs.Compile.Stops
import HostExpr.Proofs.Compile.Trees
import HostExpr.Proofs.Expr.Written

/-!
# Reading lexemes back

`Session.Spells` says of a single node that it is read back from the lexemes of its parts: its name leads
to what the node holds, its operands play their roles, and it does not stand where the grammar has no
place for it. The grammar takes one sign before an operand and none before a base, and a type name before
a closing parenthesis would wait for the operand of a cast.

An expression is read as a base whose suffixes are still to come (`Session.ReadsBase`), so that a longer
row of suffixes is read from the innermost base on.
-/

namespace HostExpr

variable {σ : Type} {s : Session σ}

namespace Expr

/-- The expression is an operator before an operand. -/
def isUnary : Expr σ → Bool
  | logicalUnary _ _ | arithmeticUnary _ _ _ => true
  | _ => false

theorem isTypeReference_eq_false_of_plays {e : Expr σ} {role : Role} (h : e.plays role)
    (hrole : role ≠ .value) : e.isTypeReference = false := by
  cases role with
  | value => exact absurd rfl hrole
  | numeric | boolean =>
    have h := (Bool.and_eq_true_iff.1 h).1
    rwa [Bool.not_eq_true'] at h

end Expr

/-- Every operator between operands has a level. -/
theorem BinaryOp.exists_level {op : BinaryOp} (hnot : op ≠ .logical .not)
    (hcomplement : op ≠ .arithmetic .complement) : ∃ p : Precedence, op ∈ p.operators := by
  rcases op with op | op | op <;> cases op
  case logical.not => exact absurd rfl hnot
  case arithmetic.complement => exact absurd rfl hcomplement
  case logical.or => exact ⟨.or, by decide⟩
  case logical.and => exact ⟨.and, by decide⟩
  case arithmetic.bitOr => exact ⟨.bitOr, by decide⟩
  case arithmetic.bitXor => exact ⟨.bitXor, by decide⟩
  case arithmetic.bitAnd => exact ⟨.bitAnd, by decide⟩
  case arithmetic.shiftLeft | arithmetic.shiftRight => exact ⟨.shift, by decide⟩
  case arithmetic.add | arithmetic.sub => exact ⟨.sum, by decide⟩
  case arithmetic.mul | arithmetic.div | arithmetic.mod => exact ⟨.product, by decide⟩
  case comparison.equal | comparison.notEqual => exact ⟨.equality, by decide⟩
  all_goals exact ⟨.relation, by decide⟩

/-! ## Nodes that can be read back -/

/-- A call under the name of the method, with the type arguments that it holds, means the method. -/
def Session.SpellsMethod (s : Session σ) (ty : Ty) (callee : Method σ) (args : List Ty) : Prop :=
  callee.typeArgs = [] ∧
      (Overload.resolve s.catalog s.helpers ty callee.name args).value = .ok callee ∨
    callee.typeArgs ≠ [] ∧ s.catalog.hasGenericMethod ty callee.name ∧
      (∀ type ∈ callee.typeArgs,
        (s.vars.find? type.text <|> s.types.find? type.text) = some type) ∧
      ∃ pattern, callee = pattern.instantiate callee.typeArgs ∧
        (Overload.resolveGeneric s.catalog ty callee.name callee.typeArgs args).value = .ok pattern

/-- The node is read back from the lexemes of its parts. -/
def Session.Spells (s : Session σ) : Expr σ → Prop
  | .bool _ | .number _ _ | .string _ => True
  | .enum value =>
    s.vars.find? value.type.name = none ∧ s.types.find? value.type.name = some (.enum value.type) ∧
      ∃ member, value.name? = some member ∧ value.type.valueOf? member = some value.value
  | .logicalUnary op operand => op = .not ∧ operand.isBoolean ∧ operand.isUnary = false
  | .logical op left right => op ≠ .not ∧ left.isBoolean ∧ right.isBoolean
  | .arithmeticUnary op operand type =>
    (op = .sub ∨ op = .complement) ∧ operand.isNumeric ∧ type = operand.type ∧ operand.isUnary = false
  | .arithmetic op left right type =>
    op ≠ .complement ∧ left.isNumeric ∧ right.isNumeric ∧ type = left.type.promote right.type
  | .comparison _ left right => left.isNumeric ∧ right.isNumeric
  | .conditional condition left right => condition.isBoolean ∧ left.isNumeric ∧ right.isNumeric
  | .var name type => s.vars.find? name = some type
  | .typeName name type =>
    s.vars.find? name = none ∧ s.types.find? name = some type ∧ ∀ enum, type ≠ .enum enum
  | .castTarget _ | .convert _ _ => False
  | .call callee args =>
    s.functions.find? callee.name = some callee ∧ args.length = callee.arity ∧ Expr.LastIsValue args
  | .property object member =>
    object.isUnary = false ∧ object.type ≠ .void ∧
      s.catalog.hasGenericMethod object.type member.name = false ∧
      ∃ others, s.catalog.members object.type member.name = member :: others
  | .method object callee args =>
    object.isUnary = false ∧ object.type ≠ .void ∧ Expr.LastIsValue args ∧
      s.SpellsMethod object.type callee (args.map Expr.type)
  | .element list index type =>
    list.isUnary = false ∧ list.type = .list type ∧ index.isNumeric

theorem Session.Spells.isObject {e : Expr σ} (h : s.Spells e) : e.isObject := by
  cases e <;> first | rfl | exact h.elim

/-! ## Lexemes at the front -/

namespace Tokens.Begins

theorem ofSymbol (symbol : Symbol) (rest : Tokens) :
    Begins (.ofSymbol symbol :: rest) (.symbol symbol) rest := ⟨_, rfl⟩

theorem ofName (name : String) (rest : Tokens) :
    Begins (.ofName name :: rest) (.identifier name) rest := ⟨_, rfl⟩

end Tokens.Begins

namespace Phrase.EndsBefore

/-- A phrase ends before a symbol that goes on with nothing. -/
theorem closing (phrase : Phrase σ) (symbol : Symbol) (hwidth : symbol.width? = none)
    (rest : Tokens) : phrase.EndsBefore (.ofSymbol symbol :: rest) := of_separator rfl hwidth

/-- A phrase ends before a symbol that goes on with wider ones only. -/
theorem widening (phrase : Phrase σ) (symbol : Symbol) {width : Nat}
    (hwidth : symbol.width? = some width) (hle : phrase.width ≤ width) (rest : Tokens) :
    phrase.EndsBefore (.ofSymbol symbol :: rest) := of_wider rfl hwidth hle

end Phrase.EndsBefore

namespace Session

open Tokens

/-! ## Bases and operands -/

/-- The lexemes of the expression are read as a base, whatever suffixes come after it. -/
def ReadsBase (s : Session σ) (e : Expr σ) : Prop :=
  ∀ ⦃rest e' left⦄, Tokens.kind rest ≠ .symbol .leftParen →
    (e.isTypeReference → Tokens.kind rest ≠ .symbol .rightParen) →
    (s.suffixes e rest).Yields e' left → (s.primary (e.lexemes ++ rest)).Yields e' left

/-- The lexemes of the expression are read as an operand. -/
def ReadsBack (s : Session σ) (e : Expr σ) : Prop :=
  ∀ ⦃rest⦄, (.unary : Phrase σ).EndsBefore rest →
    (e.isTypeReference → Tokens.kind rest ≠ .symbol .rightParen) →
    (s.unary (e.lexemes ++ rest)).Yields e rest

theorem yields_suffixes_self {e : Expr σ} {rest : Tokens} (h : (.unary : Phrase σ).EndsBefore rest) :
    (s.suffixes e rest).Yields e rest :=
  yields_suffixes.2 (.inl ⟨h.kind_ne rfl (Nat.le_refl _), h.kind_ne rfl (Nat.le_refl _), rfl, rfl⟩)

/-- What is read as a base is read as an operand, with no sign before it. -/
theorem ReadsBase.readsBack {e : Expr σ} (h : s.ReadsBase e) : s.ReadsBack e := by
  intro rest hend htype
  have hprimary := h (hend.kind_ne_leftParen (Nat.succ_pos _)) htype (yields_suffixes_self hend)
  obtain ⟨d, hd⟩ := derives_primary hprimary
  exact yields_unary.2 (.inl ⟨fun op _ hkind => op.symbol_ne_leftParen (hd.opens _ hkind), hprimary⟩)

/-- What is read as an operand is an expression before what goes on with no expression. -/
theorem ReadsBack.expression {e : Expr σ} (h : s.ReadsBack e) {rest : Tokens}
    (hend : (.expression : Phrase σ).EndsBefore rest)
    (htype : e.isTypeReference → rest.kind ≠ .symbol .rightParen) :
    (s.expression (e.lexemes ++ rest)).Yields e rest :=
  yields_expression_of_unary (h (hend.mono (Nat.le_add_right 2 12)) htype) hend

theorem ReadsBack.expression_of_plays {e : Expr σ} (h : s.ReadsBack e) {role : Role}
    (hplays : e.plays role) (hrole : role ≠ .value) {rest : Tokens}
    (hend : (.expression : Phrase σ).EndsBefore rest) :
    (s.expression (e.lexemes ++ rest)).Yields e rest := by
  have htype := Expr.isTypeReference_eq_false_of_plays hplays hrole
  exact h.expression hend fun h => nomatch htype.symm.trans h

theorem ReadsBack.operand {e : Expr σ} (h : s.ReadsBack e) {p : Precedence} {role : Role}
    (hplays : e.plays role) (hrole : role ≠ .value) {rest : Tokens}
    (hend : (.operand p : Phrase σ).EndsBefore rest) :
    (s.operand p (e.lexemes ++ rest)).Yields e rest := by
  have htype := Expr.isTypeReference_eq_false_of_plays hplays hrole
  have hle : (.unary : Phrase σ).width ≤ (.operand p : Phrase σ).width :=
    show 2 ≤ p.looseness + 3 by omega
  exact yields_operand_of_unary (h (hend.mono hle) fun h => nomatch htype.symm.trans h) hend

theorem readsBack_apply {op : UnaryOp} (hop : op ∈ UnaryOp.all) {operand : Expr σ}
    (h : s.ReadsBase operand) (hplays : operand.plays op.role)
    {rest : Tokens} (hend : (.unary : Phrase σ).EndsBefore rest) :
    (s.unary (.ofSymbol op.symbol :: operand.lexemes ++ rest)).Yields (op.apply operand) rest := by
  have hrole : op.role ≠ .value := by cases op <;> nofun
  have htype := Expr.isTypeReference_eq_false_of_plays hplays hrole
  have hoperand := h (hend.kind_ne_leftParen (Nat.succ_pos _)) (fun h => nomatch htype.symm.trans h)
    (yields_suffixes_self hend)
  exact yields_unary.2 (.inr ⟨op, hop, _, operand, .ofSymbol _ _, hoperand, hplays, rfl⟩)

/-! ## Parentheses -/

/-- An expression in parentheses is a base. -/
theorem yields_primary_of_parens {e e' : Expr σ} {inside rest left : Tokens} (hobject : e.isObject)
    (h : (s.expression inside).Yields e (.ofSymbol .rightParen :: rest))
    (hsuffixes : (s.suffixes e rest).Yields e' left) :
    (s.primary (.ofSymbol .leftParen :: inside)).Yields e' left :=
  yields_primary.2 (.inl ⟨inside, .ofSymbol _ _,
    yields_group.2 ⟨e, _, rest, h, .ofSymbol _ _, .inr ⟨hobject, hsuffixes⟩⟩⟩)

/-- Two operands with an operator between them are read at the level of the operator, up to a
parenthesis. -/
theorem ReadsBack.level {p : Precedence} {op : BinaryOp} (hop : op ∈ p.operators) {left right : Expr σ}
    (hl : s.ReadsBack left) (hr : s.ReadsBack right) (hleft : left.plays op.role)
    (hright : right.plays op.role) (rest : Tokens) :
    (s.level p (left.lexemes ++ .ofSymbol op.symbol :: (right.lexemes ++
      .ofSymbol .rightParen :: rest))).Yields (op.combine left right) (.ofSymbol .rightParen :: rest) := by
  have hrole : op.role ≠ .value := by cases op <;> nofun
  have hclose : ∀ phrase : Phrase σ, phrase.EndsBefore (.ofSymbol .rightParen :: rest) :=
    fun phrase => .closing phrase _ rfl rest
  have hsecond := hr.operand hright hrole (hclose (.operand p))
  have hfirst := hl.operand hleft hrole (.widening (.operand p) _ (Symbol.width?_operator hop)
    (Nat.le_refl _) (right.lexemes ++ .ofSymbol .rightParen :: rest))
  refine yields_level.2 ⟨left, _, hfirst, yields_chain.2 (.inr ⟨op, hop, _, right, _, .ofSymbol _ _,
    hleft, hsecond, hright, ?_⟩)⟩
  split
  · refine yields_chain.2 (.inl ⟨fun op hop => ?_, rfl, rfl⟩)
    exact (hclose (.level p)).kind_ne (Symbol.width?_operator hop) (Nat.lt_succ_self _)
  · exact ⟨rfl, rfl⟩

/-- An operation in parentheses is read as a base. -/
theorem readsBase_operation {op : BinaryOp} (hnot : op ≠ .logical .not)
    (hcomplement : op ≠ .arithmetic .complement) {left right : Expr σ} (hl : s.ReadsBack left)
    (hr : s.ReadsBack right) (hleft : left.plays op.role) (hright : right.plays op.role) :
    s.ReadsBase (op.combine left right) := by
  obtain ⟨p, hop⟩ := BinaryOp.exists_level hnot hcomplement
  intro rest e' after _ _ hsuffixes
  have hlevel := hl.level hop hr hleft hright rest
  have hinside := yields_expression_of_level hlevel (.of_separator rfl rfl)
  have hobject : (op.combine left right).isObject := by cases op <;> rfl
  have hbase := yields_primary_of_parens hobject hinside hsuffixes
  have hlexemes : (op.combine left right).lexemes ++ rest = .ofSymbol .leftParen ::
      (left.lexemes ++ .ofSymbol op.symbol :: (right.lexemes ++ .ofSymbol .rightParen :: rest)) := by
    cases op <;>
      simp [BinaryOp.combine, Expr.binary, Expr.lexemes, BinaryOp.symbol, Expr.operationLexemes]
  rw [hlexemes]
  exact hbase

theorem readsBase_conditional {condition left right : Expr σ} (hc : s.ReadsBack condition)
    (hl : s.ReadsBack left) (hr : s.ReadsBack right) (hcondition : condition.isBoolean)
    (hleft : left.isNumeric) (hright : right.isNumeric) :
    s.ReadsBase (.conditional condition left right) := by
  intro rest e' after _ _ hsuffixes
  have hc' : condition.plays .boolean := hcondition
  have hl' : left.plays .numeric := hleft
  have hr' : right.plays .numeric := hright
  have hno := hr.expression_of_plays hr' nofun (.closing _ .rightParen rfl rest)
  have hyes := hl.expression_of_plays hl' nofun
    (.closing _ .colon rfl (right.lexemes ++ .ofSymbol .rightParen :: rest))
  have hquestion : (.level .or : Phrase σ).EndsBefore (.ofSymbol .question :: (left.lexemes ++
      .ofSymbol .colon :: (right.lexemes ++ .ofSymbol .rightParen :: rest))) :=
    .widening (.level .or) .question rfl (Nat.le_refl 13) _
  have hor : (.operand .or : Phrase σ).EndsBefore _ := hquestion.mono (Nat.le_succ 12)
  have hor := yields_level_of_operand (hc.operand hc' nofun hor) hquestion
  have hinside := yields_expression.2 ⟨condition, _, hor, .inr ⟨_, left, _, _, right, .ofSymbol _ _,
    hcondition, hyes, hleft, .ofSymbol _ _, hno, hright, rfl⟩⟩
  have hbase := yields_primary_of_parens rfl hinside hsuffixes
  have hlexemes : (Expr.conditional condition left right).lexemes ++ rest = .ofSymbol .leftParen ::
      (condition.lexemes ++ .ofSymbol .question :: (left.lexemes ++ .ofSymbol .colon ::
        (right.lexemes ++ .ofSymbol .rightParen :: rest))) := by
    simp [Expr.lexemes]
  rw [hlexemes]
  exact hbase

/-! ## Names and literals -/

theorem readsBase_literal {l : Lexeme} {e : Expr σ} (hliteral : Expr.ofLiteral? l.token = some e)
    (hlexemes : e.lexemes = [l]) : s.ReadsBase e := by
  intro rest e' left _ _ hsuffixes
  rw [hlexemes]
  exact yields_primary.2 (.inr ⟨e, rest, .inr ⟨l.token, .cons l rest, hliteral⟩, hsuffixes⟩)

theorem readsBase_var {name : String} {type : Ty} (h : s.vars.find? name = some type) :
    s.ReadsBase (.var name type) := by
  intro rest e' left hparen _ hsuffixes
  have hname := Tokens.Begins.ofName name rest
  have hnamed := yields_named.2 ⟨name, rest, hname, .inr ⟨hparen, hname.length_lt,
    yields_plainName.2 (.inl ⟨type, h, rfl, rfl⟩)⟩⟩
  rw [Expr.lexemes]
  exact yields_primary.2 (.inr ⟨_, rest, .inl hnamed, hsuffixes⟩)

theorem readsBase_typeName {name : String} {type : Ty} (hvar : s.vars.find? name = none)
    (htype : s.types.find? name = some type) (henum : ∀ enum, type ≠ .enum enum) :
    s.ReadsBase (.typeName name type) := by
  intro rest e' left hparen hclose hsuffixes
  have hname := Tokens.Begins.ofName name rest
  have hnamed := yields_named.2 ⟨name, rest, hname, .inr ⟨hparen, hname.length_lt,
    yields_plainName.2 (.inr ⟨hvar, type, htype, .inr ⟨hclose rfl, .inr ⟨henum, rfl, rfl⟩⟩⟩)⟩⟩
  rw [Expr.lexemes]
  exact yields_primary.2 (.inr ⟨_, rest, .inl hnamed, hsuffixes⟩)

theorem readsBase_enum {value : EnumValue} {member : String}
    (hvar : s.vars.find? value.type.name = none)
    (htype : s.types.find? value.type.name = some (.enum value.type))
    (hname : value.name? = some member) (hvalue : value.type.valueOf? member = some value.value) :
    s.ReadsBase (.enum value) := by
  intro rest e' left _ _ hsuffixes
  have hpoint := Tokens.Begins.ofSymbol .dot (.ofName member :: rest)
  have hmember : (enumMember value.type.name value.type _).Yields (.enum value : Expr σ) rest :=
    yields_enumMember.2 ⟨_, member, value.value, hpoint, .ofName member rest, hvalue, rfl⟩
  have henum := Tokens.Begins.ofName value.type.name (.ofSymbol .dot :: .ofName member :: rest)
  have hnamed := yields_named.2 ⟨_, _, henum, .inr ⟨hpoint.kind_ne nofun, henum.length_lt,
    yields_plainName.2 (.inr ⟨hvar, _, htype, .inr ⟨hpoint.kind_ne nofun, .inl ⟨_, rfl, hmember⟩⟩⟩)⟩⟩
  rw [Expr.lexemes, hname]
  exact yields_primary.2 (.inr ⟨_, rest, .inl hnamed, hsuffixes⟩)

/-! ## Arguments -/

theorem reads_argumentList {args : List (Expr σ)} (hne : args ≠ [])
    (hargs : ∀ arg ∈ args, s.ReadsBack arg ∧ arg.isObject) (hlast : Expr.LastIsValue args)
    (rest : Tokens) :
    (s.argumentList (separated (args.map Expr.lexemes) ++ .ofSymbol .rightParen :: rest)).Yields args
      rest := by
  induction args with
  | nil => exact absurd rfl hne
  | cons arg args ih =>
    obtain ⟨⟨harg, hobject⟩, hargs⟩ := List.forall_mem_cons.1 hargs
    cases args with
    | nil =>
      have htype : arg.isTypeReference = false := hlast arg rfl
      have hexpression := harg.expression (.closing _ .rightParen rfl rest)
        fun h => nomatch htype.symm.trans h
      exact yields_argumentList.2 ⟨arg, _, hexpression, hobject, .inr ⟨.ofSymbol _ _, rfl⟩⟩
    | cons next others =>
      have hlast : Expr.LastIsValue (next :: others) := hlast
      have hmore := ih nofun hargs hlast
      have hexpression := harg.expression (.closing _ .comma rfl (separated
        ((next :: others).map Expr.lexemes) ++ .ofSymbol .rightParen :: rest)) fun _ => nofun
      have hlist := yields_argumentList.2 ⟨arg, _, hexpression, hobject,
        .inl ⟨_, next :: others, .ofSymbol _ _, hmore, rfl⟩⟩
      have hrow : separated ((arg :: next :: others).map Expr.lexemes) ++
          .ofSymbol .rightParen :: rest = arg.lexemes ++ (.ofSymbol .comma ::
            (separated ((next :: others).map Expr.lexemes) ++ .ofSymbol .rightParen :: rest)) := by
        simp [separated]
      rw [hrow]
      exact hlist

theorem reads_arguments {args : List (Expr σ)}
    (hargs : ∀ arg ∈ args, s.ReadsBack arg ∧ arg.isObject) (hlast : Expr.LastIsValue args)
    (rest : Tokens) :
    (s.arguments (separated (args.map Expr.lexemes) ++ .ofSymbol .rightParen :: rest)).Yields args
      rest := by
  by_cases hne : args = []
  · subst hne
    exact yields_arguments.2 (.inl ⟨.ofSymbol _ _, rfl⟩)
  · have hlist := reads_argumentList hne hargs hlast rest
    obtain ⟨d, hd⟩ := derives_argumentList hlist
    exact yields_arguments.2 (.inr ⟨hd.opens, hlist⟩)

/-- Type arguments that are registered under their names are read back. -/
theorem reads_typeArgumentList {types : List Ty} (hne : types ≠ [])
    (htypes : ∀ type ∈ types, (s.vars.find? type.text <|> s.types.find? type.text) = some type)
    (rest : Tokens) :
    (s.typeArgumentList (separated (types.map fun type => [.ofName type.text]) ++
      .ofSymbol .greater :: rest)).Yields types rest := by
  induction types with
  | nil => exact absurd rfl hne
  | cons type types ih =>
    obtain ⟨htype, htypes⟩ := List.forall_mem_cons.1 htypes
    cases types with
    | nil =>
      have hread := yields_typeArgument.2 ⟨_, .ofName type.text (.ofSymbol .greater :: rest), htype⟩
      exact yields_typeArgumentList.2 ⟨type, _, hread, .inr ⟨.ofSymbol _ _, rfl⟩⟩
    | cons next others =>
      have hread := yields_typeArgument.2 ⟨_, .ofName type.text (.ofSymbol .comma :: (separated
        ((next :: others).map fun type => [.ofName type.text]) ++ .ofSymbol .greater :: rest)), htype⟩
      exact yields_typeArgumentList.2 ⟨type, _, hread,
        .inl ⟨_, next :: others, .ofSymbol _ _, ih nofun htypes, rfl⟩⟩

theorem readsBase_call {callee : HostFunction σ} {args : List (Expr σ)}
    (hargs : ∀ arg ∈ args, s.ReadsBack arg ∧ arg.isObject) (hlast : Expr.LastIsValue args)
    (hcallee : s.functions.find? callee.name = some callee) (harity : args.length = callee.arity) :
    s.ReadsBase (.call callee args) := by
  intro rest e' left _ _ hsuffixes
  have harguments := reads_arguments hargs hlast rest
  have hnamed := yields_named.2 ⟨callee.name, _, .ofName _ _,
    .inl ⟨_, args, callee, .ofSymbol _ _, harguments, hcallee, harity, rfl⟩⟩
  have hlexemes : (Expr.call callee args).lexemes ++ rest = .ofName callee.name ::
      .ofSymbol .leftParen :: (separated (args.map Expr.lexemes) ++ .ofSymbol .rightParen :: rest) := by
    simp [Expr.lexemes, Expr.rows_eq_map]
  rw [hlexemes]
  exact yields_primary.2 (.inr ⟨_, rest, .inl hnamed, hsuffixes⟩)

/-! ## Suffixes -/

/-- A member after a base goes on with it. -/
theorem ReadsBase.access {object access e' : Expr σ} (h : s.ReadsBase object)
    (hobject : object.isObject) (hvoid : object.type ≠ .void) {name rest left : Tokens}
    (haccess : (s.member object name).Yields access rest)
    (hsuffixes : (s.suffixes access rest).Yields e' left) :
    (s.primary (object.lexemes ++ .ofSymbol .dot :: name)).Yields e' left :=
  h nofun (fun _ => nofun) (yields_suffixes.2
    (.inr (.inr ⟨name, access, rest, .ofSymbol _ _, hobject, hvoid, haccess, hsuffixes⟩)))

theorem readsBase_property {object : Expr σ} {member : Member σ} {others : List (Member σ)}
    (h : s.ReadsBase object) (hobject : object.isObject) (hvoid : object.type ≠ .void)
    (hgeneric : s.catalog.hasGenericMethod object.type member.name = false)
    (hmember : s.catalog.members object.type member.name = member :: others) :
    s.ReadsBase (.property object member) := by
  intro rest e' left hparen _ hsuffixes
  have haccess : (s.member object (.ofName member.name :: rest)).Yields (.property object member) rest :=
    yields_member.2 ⟨member.name, rest, .ofName _ _, .inr (.inr ⟨hparen,
      (fun hless => nomatch hgeneric.symm.trans hless.2), member, others, hmember, rfl, rfl⟩)⟩
  have hlexemes : (Expr.property object member).lexemes ++ rest =
      object.lexemes ++ .ofSymbol .dot :: .ofName member.name :: rest := by
    simp [Expr.lexemes]
  rw [hlexemes]
  exact h.access hobject hvoid haccess hsuffixes

theorem readsBase_method {object : Expr σ} {callee : Method σ} {args : List (Expr σ)}
    (h : s.ReadsBase object) (hobject : object.isObject) (hvoid : object.type ≠ .void)
    (hargs : ∀ arg ∈ args, s.ReadsBack arg ∧ arg.isObject) (hlast : Expr.LastIsValue args)
    (hcallee : s.SpellsMethod object.type callee (args.map Expr.type)) :
    s.ReadsBase (.method object callee args) := by
  intro rest e' left _ _ hsuffixes
  have harguments := reads_arguments hargs hlast rest
  have hlexemes : (Expr.method object callee args).lexemes ++ rest =
      object.lexemes ++ .ofSymbol .dot :: .ofName callee.name :: (ofTypeArguments callee.typeArgs ++
        .ofSymbol .leftParen :: (separated (args.map Expr.lexemes) ++
          .ofSymbol .rightParen :: rest)) := by
    simp [Expr.lexemes, Expr.rows_eq_map]
  rw [hlexemes]
  refine h.access hobject hvoid (yields_member.2 ⟨callee.name, _, .ofName _ _, ?_⟩) hsuffixes
  rcases hcallee with ⟨hnone, hresolve⟩ | ⟨hsome, hgeneric, htypes, pattern, hpattern, hresolve⟩
  · rw [hnone]
    exact .inl ⟨_, args, callee, .ofSymbol _ _, harguments, hresolve, rfl⟩
  · have hlist := reads_typeArgumentList hsome htypes (.ofSymbol .leftParen ::
      (separated (args.map Expr.lexemes) ++ .ofSymbol .rightParen :: rest))
    have htypeArgs := yields_typeArguments.2 ⟨_, .ofSymbol .less _, hlist⟩
    have hrow : ofTypeArguments callee.typeArgs ++ .ofSymbol .leftParen ::
        (separated (args.map Expr.lexemes) ++ .ofSymbol .rightParen :: rest) = .ofSymbol .less ::
          (separated (callee.typeArgs.map fun type => [.ofName type.text]) ++ .ofSymbol .greater ::
            .ofSymbol .leftParen :: (separated (args.map Expr.lexemes) ++
              .ofSymbol .rightParen :: rest)) := by
      simp [ofTypeArguments, hsome]
    rw [hrow]
    exact .inr (.inl ⟨hgeneric, _, _, _, args, pattern, htypeArgs, .ofSymbol _ _, harguments, hresolve,
      by rw [← hpattern]⟩)

theorem readsBase_element {list index : Expr σ} {type : Ty} (h : s.ReadsBase list)
    (hindex : s.ReadsBack index) (htype : list.type = .list type) (hnum : index.isNumeric) :
    s.ReadsBase (.element list index type) := by
  intro rest e' left _ _ hsuffixes
  have hnum' : index.plays .numeric := hnum
  have hinside := hindex.expression_of_plays hnum' nofun (.closing _ .rightBracket rfl rest)
  have hmore := yields_suffixes.2 (.inr (.inl ⟨_, type, index, _, rest, .ofSymbol .leftBracket _, htype,
    hinside, hnum, .ofSymbol _ _, hsuffixes⟩))
  have hread : (s.primary (list.lexemes ++
      .ofSymbol .leftBracket :: (index.lexemes ++ .ofSymbol .rightBracket :: rest))).Yields e' left :=
    h nofun (fun _ => nofun) hmore
  have hlexemes : (Expr.element list index type).lexemes ++ rest =
      list.lexemes ++ .ofSymbol .leftBracket :: (index.lexemes ++ .ofSymbol .rightBracket :: rest) := by
    simp [Expr.lexemes]
  rwa [hlexemes]

/-! ## Expressions -/

/-- An expression whose nodes can be read back is read back: as an operand, and as a base if no sign is
before it. -/
theorem reads_of_spells {e : Expr σ} (h : e.Everywhere s.Spells) :
    s.ReadsBack e ∧ (e.isUnary = false → s.ReadsBase e) := by
  -- Only a sign keeps an operand from being a base.
  have hbase : ∀ {e : Expr σ}, s.ReadsBase e → s.ReadsBack e ∧ (e.isUnary = false → s.ReadsBase e) :=
    fun h => ⟨h.readsBack, fun _ => h⟩
  have hsign : ∀ {e : Expr σ}, e.isUnary → s.ReadsBack e →
      s.ReadsBack e ∧ (e.isUnary = false → s.ReadsBase e) :=
    fun hunary h => ⟨h, fun hnot => absurd hunary (ne_true_of_eq_false hnot)⟩
  induction e with
  | bool b => exact hbase (readsBase_literal rfl (by rw [Expr.lexemes]))
  | number value kind => exact hbase (readsBase_literal rfl (by rw [Expr.lexemes]))
  | string text => exact hbase (readsBase_literal rfl (by rw [Expr.lexemes]))
  | enum value =>
    obtain ⟨hvar, htype, member, hname, hvalue⟩ := h.here
    exact hbase (readsBase_enum hvar htype hname hvalue)
  | logicalUnary op operand ih =>
    obtain ⟨rfl, hplays, hunary⟩ := h.here
    have hoperand := (ih (h.first rfl)).2 hunary
    refine hsign rfl fun rest hend _ => ?_
    rw [Expr.lexemes]
    have hmem : .not ∈ UnaryOp.all := by decide
    exact readsBack_apply hmem hoperand hplays hend
  | arithmeticUnary op operand type ih =>
    obtain ⟨hop, hplays, rfl, hunary⟩ := h.here
    have hoperand := (ih (h.first rfl)).2 hunary
    refine hsign rfl fun rest hend _ => ?_
    rw [Expr.lexemes]
    have hmem : .arithmetic op ∈ UnaryOp.all := by rcases hop with rfl | rfl <;> decide
    exact readsBack_apply hmem hoperand hplays hend
  | logical op left right ihl ihr =>
    obtain ⟨hnot, hleft, hright⟩ := h.here
    have hl := (ihl (h.first rfl)).1
    have hr := (ihr (h.second rfl)).1
    have hnot' : BinaryOp.logical op ≠ .logical .not := by simpa using hnot
    exact hbase (readsBase_operation hnot' (by simp) hl hr hleft hright)
  | arithmetic op left right type ihl ihr =>
    obtain ⟨hcomplement, hleft, hright, rfl⟩ := h.here
    have hl := (ihl (h.first rfl)).1
    have hr := (ihr (h.second rfl)).1
    have hcomplement' : BinaryOp.arithmetic op ≠ .arithmetic .complement := by
      simpa using hcomplement
    exact hbase (readsBase_operation (by simp) hcomplement' hl hr hleft hright)
  | comparison op left right ihl ihr =>
    obtain ⟨hleft, hright⟩ := h.here
    have hl := (ihl (h.first rfl)).1
    have hr := (ihr (h.second rfl)).1
    have hnot : BinaryOp.comparison op ≠ .logical .not := by simp
    exact hbase (readsBase_operation hnot (by simp) hl hr hleft hright)
  | conditional condition left right ihc ihl ihr =>
    obtain ⟨hcondition, hleft, hright⟩ := h.here
    have hc := (ihc (h.first rfl)).1
    have hl := (ihl (h.second rfl)).1
    have hr := (ihr (h.third rfl)).1
    exact hbase (readsBase_conditional hc hl hr hcondition hleft hright)
  | var name type => exact hbase (readsBase_var h.here)
  | typeName name type =>
    obtain ⟨hvar, htype, henum⟩ := h.here
    exact hbase (readsBase_typeName hvar htype henum)
  | castTarget | convert => exact h.here.elim
  | call callee args ih =>
    obtain ⟨hcallee, harity, hlast⟩ := h.here
    have hargs : ∀ arg ∈ args, s.ReadsBack arg ∧ arg.isObject := fun arg harg =>
      ⟨(ih arg harg (h.child harg)).1, (h.child harg).here.isObject⟩
    exact hbase (readsBase_call hargs hlast hcallee harity)
  | property object member ih =>
    obtain ⟨hunary, hvoid, hgeneric, others, hmember⟩ := h.here
    have hchild := h.child (List.mem_cons_self ..)
    exact hbase (readsBase_property ((ih hchild).2 hunary) hchild.here.isObject hvoid hgeneric hmember)
  | method object callee args ih ihs =>
    obtain ⟨hunary, hvoid, hlast, hcallee⟩ := h.here
    have hchild := h.child (List.mem_cons_self ..)
    have hargs : ∀ arg ∈ args, s.ReadsBack arg ∧ arg.isObject := fun arg harg =>
      have hnode := h.child (List.mem_cons_of_mem _ harg)
      ⟨(ihs arg harg hnode).1, hnode.here.isObject⟩
    exact hbase (readsBase_method ((ih hchild).2 hunary) hchild.here.isObject hvoid hargs hlast hcallee)
  | element list index type ihl ihi =>
    obtain ⟨hunary, htype, hnum⟩ := h.here
    have hlist := (ihl (h.child (List.mem_cons_self ..))).2 hunary
    have hindex := (ihi (h.second rfl)).1
    exact hbase (readsBase_element hlist hindex htype hnum)

/-- All of the lexemes of the expression are read as the expression. -/
theorem yields_lexemes {e : Expr σ} (h : e.Everywhere s.Spells) :
    (s.expression e.lexemes).Yields e [] := by
  have hend : (.expression : Phrase σ).EndsBefore [] := fun _ _ hkind => nomatch hkind
  have hread := (reads_of_spells h).1.expression hend fun _ hkind => nomatch hkind
  rwa [List.append_nil] at hread

end Session

end HostExpr
