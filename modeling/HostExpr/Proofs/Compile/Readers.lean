-- SUMMARY: What each function of the grammar yields, in terms of the functions it calls.
import HostExpr.Compile.Grammar
import HostExpr.Proofs.Compile.Operators
import HostExpr.Proofs.Compile.Yields

/-!
# What the readers yield

One equation for each function of the grammar: it yields an expression exactly if the functions that it
calls yield the parts, the tokens between them are there, and the checks of roles and names pass. Later
proofs use these equations and never the functions themselves.
-/

namespace HostExpr

/-! ## Operators -/

namespace Tokens

variable {α : Type} {symbol : α → Symbol} {operators : List α} {ts : Tokens}

theorem operator?_eq_some_iff (hinj : ∀ {a b}, symbol a = symbol b → a = b) {op : α}
    {rest : ts.Shorter} :
    ts.operator? symbol operators = some (op, rest) ↔
      op ∈ operators ∧ ts.Begins (.symbol (symbol op)) rest := by
  induction operators with
  | nil => simp [operator?]
  | cons first others ih =>
    simp only [operator?, List.findSome?_cons, List.mem_cons] at ih ⊢
    cases hfirst : ts.accept? (.symbol (symbol first)) with
    | none =>
      simp only [Option.map_none, ih]
      have hne : ts.Begins (.symbol (symbol op)) rest → op ≠ first := by
        rintro hbegins rfl
        exact accept?_eq_none_iff.1 hfirst hbegins.kind_eq
      grind
    | some rest' =>
      have hbegins := accept?_eq_some_iff.1 hfirst
      simp only [Option.map_some, Option.some.injEq, Prod.mk.injEq]
      constructor
      · rintro ⟨rfl, rfl⟩
        exact ⟨.inl rfl, hbegins⟩
      · rintro ⟨-, h⟩
        obtain ⟨htoken, hrest⟩ := hbegins.unique h
        exact ⟨hinj (Token.symbol.inj htoken), Subtype.ext hrest⟩

theorem operator?_eq_none_iff :
    ts.operator? symbol operators = none ↔ ∀ op ∈ operators, ts.kind ≠ .symbol (symbol op) := by
  simp [operator?, accept?_eq_none_iff]

end Tokens

namespace Session

open Tokens

variable {σ : Type} {s : Session σ} {ts rest : Tokens} {e : Expr σ}

/-! ## Expressions and levels -/

theorem yields_expression :
    (s.expression ts).Yields e rest ↔ ∃ condition middle, (s.level .or ts).Yields condition middle ∧
      ((middle.kind ≠ .symbol .question ∧ condition = e ∧ middle = rest) ∨
        ∃ yes left colon no right, middle.Begins (.symbol .question) yes ∧ condition.isBoolean ∧
          (s.expression yes).Yields left colon ∧ left.isNumeric ∧
          colon.Begins (.symbol .colon) no ∧ (s.expression no).Yields right rest ∧ right.isNumeric ∧
          Expr.conditional condition left right = e) := by
  rw [expression]
  simp only [Parsed.yields_andThen]
  constructor
  · rintro ⟨condition, middle, hlt, hcondition, h⟩
    refine ⟨condition, middle, hcondition, ?_⟩
    split at h
    · exact .inl ⟨accept?_eq_none_iff.1 ‹_›, by simpa using h⟩
    · split at h
      · simp only [Parsed.yields_under, Parsed.yields_andThen, Parsed.yields_demand,
          Parsed.yields_expect, Parsed.yields_map, Parsed.yields_noting] at h
        obtain ⟨left, colon, _, hleft, _, no, _, hcolon, right, hright, rfl⟩ := h
        exact .inr ⟨_, left, colon, no, right, accept?_eq_some_iff.1 ‹_›, ‹_›, hleft.1, hleft.2,
          hcolon, hright.1, hright.2, rfl⟩
      · exact absurd h (by simp)
  · rintro ⟨condition, middle, hcondition, h⟩
    refine ⟨condition, middle, hcondition.length_lt, hcondition, ?_⟩
    rcases h with ⟨hkind, rfl, rfl⟩ |
      ⟨yes, left, colon, no, right, hyes, hbool, hleft, hnum, hcolon, hright, hnum', rfl⟩
    · simp [accept?_eq_none_iff.2 hkind]
    · simp only [hyes.accept?, hbool, if_true]
      simp only [Parsed.yields_under, Parsed.yields_andThen, Parsed.yields_demand,
        Parsed.yields_expect, Parsed.yields_map, Parsed.yields_noting]
      exact ⟨left, colon, hleft.length_lt, ⟨hleft, hnum⟩, (), no, hcolon.length_lt, hcolon, right,
        ⟨hright, hnum'⟩, rfl⟩

theorem yields_level {p : Precedence} :
    (s.level p ts).Yields e rest ↔ ∃ left middle, (s.operand p ts).Yields left middle ∧
      (s.chain p ts left middle).Yields e rest := by
  rw [level]
  simp only [Parsed.yields_andThen, Parsed.yields_within]
  constructor
  · rintro ⟨left, middle, _, hleft, hchain⟩
    exact ⟨left, middle, hleft, hchain⟩
  · rintro ⟨left, middle, hleft, hchain⟩
    exact ⟨left, middle, hleft.length_lt, hleft, hchain⟩

theorem yields_operand {p : Precedence} :
    (s.operand p ts).Yields e rest ↔
      (∃ q, p.tighter? = some q ∧ (s.level q ts).Yields e rest) ∨
        (p.tighter? = none ∧ (s.unary ts).Yields e rest) := by
  rw [operand]
  split <;> simp_all

theorem yields_chain {p : Precedence} {start : Tokens} {left : Expr σ} :
    (s.chain p start left ts).Yields e rest ↔
      ((∀ op ∈ p.operators, ts.kind ≠ .symbol op.symbol) ∧ left = e ∧ ts = rest) ∨
        ∃ op ∈ p.operators, ∃ next right after, ts.Begins (.symbol op.symbol) next ∧
          left.plays op.role ∧ (s.operand p next).Yields right after ∧ right.plays op.role ∧
          if p.chains then (s.chain p start (op.combine left right) after).Yields e rest
          else op.combine left right = e ∧ after = rest := by
  rw [chain]
  constructor
  · intro h
    split at h
    · exact .inl ⟨operator?_eq_none_iff.1 ‹_›, by simpa using h⟩
    · obtain ⟨hop, hbegins⟩ := (operator?_eq_some_iff BinaryOp.symbol_injective).1 ‹_›
      split at h
      · simp only [Parsed.yields_loose, Parsed.yields_under, Parsed.yields_andThen,
          Parsed.yields_demand] at h
        obtain ⟨right, after, _, ⟨hright, hrole⟩, h⟩ := h
        refine .inr ⟨_, hop, _, right, after, hbegins, ‹_›, hright, hrole, ?_⟩
        split at h <;> simp_all
      · exact absurd h (by simp)
  · rintro (⟨hnone, rfl, rfl⟩ | ⟨op, hop, next, right, after, hbegins, hleft, hright, hrole, h⟩)
    · simp [operator?_eq_none_iff.2 hnone]
    · have hsome : ts.operator? BinaryOp.symbol p.operators = some (op, ⟨next, hbegins.length_lt⟩) :=
        (operator?_eq_some_iff BinaryOp.symbol_injective).2 ⟨hop, hbegins⟩
      simp only [hsome, hleft, if_true, Parsed.yields_loose, Parsed.yields_under,
        Parsed.yields_andThen, Parsed.yields_demand]
      refine ⟨right, after, hright.length_lt, ⟨hright, hrole⟩, ?_⟩
      split <;> simp_all

/-! ## Names -/

theorem yields_enumMember {name : String} {type : EnumType} :
    (enumMember name type ts).Yields e rest ↔ ∃ place member value,
      ts.Begins (.symbol .dot) place ∧ place.Begins (.identifier member) rest ∧
        type.valueOf? member = some value ∧ Expr.enum ⟨type, value⟩ = e := by
  simp only [enumMember, Parsed.yields_andThen, Parsed.yields_expect, Parsed.yields_under,
    Parsed.yields_identifier, Parsed.yields_require, Option.map_eq_some_iff]
  constructor
  · rintro ⟨_, place, _, hdot, member, middle, _, hmember, ⟨value, hvalue, he⟩, rfl⟩
    exact ⟨place, member, value, hdot, hmember, hvalue, he⟩
  · rintro ⟨place, member, value, hdot, hmember, hvalue, he⟩
    exact ⟨(), place, hdot.length_lt, hdot, member, rest, hmember.length_lt, hmember,
      ⟨value, hvalue, he⟩, rfl⟩

theorem yields_plainName {name : String} {place middle : Tokens}
    {h : middle.length < place.length} :
    (s.plainName name place middle h).Yields e rest ↔
      (∃ type, s.vars.find? name = some type ∧ Expr.var name type = e ∧ middle = rest) ∨
        (s.vars.find? name = none ∧ ∃ type, s.types.find? name = some type ∧
          ((middle.kind = .symbol .rightParen ∧ Expr.castTarget type = e ∧ middle = rest) ∨
            (middle.kind ≠ .symbol .rightParen ∧
              ((∃ enum, type = .enum enum ∧ (enumMember name enum middle).Yields e rest) ∨
                ((∀ enum, type ≠ .enum enum) ∧ Expr.typeName name type = e ∧ middle = rest))))) := by
  unfold plainName
  cases hvar : s.vars.find? name with
  | some type => simp
  | none =>
    cases htype : s.types.find? name with
    | none => simp
    | some type =>
      by_cases hkind : middle.kind = .symbol .rightParen
      · simp [hkind]
      · cases type <;> simp [hkind]

theorem yields_callNamed {name : String} {args : List (Expr σ)} {place middle : Tokens} {n : Nat}
    {h : middle.length < n} :
    (s.callNamed name args place middle h).Yields e rest ↔ ∃ callee,
      s.functions.find? name = some callee ∧ args.length = callee.arity ∧
        Expr.call callee args = e ∧ middle = rest := by
  unfold callNamed
  cases hcallee : s.functions.find? name with
  | none => simp
  | some callee =>
    by_cases hlength : args.length = callee.arity <;> simp [hlength]

theorem yields_named :
    (s.named ts).Yields e rest ↔ ∃ name middle, ts.Begins (.identifier name) middle ∧
      ((∃ inside args callee, middle.Begins (.symbol .leftParen) inside ∧
          (s.arguments inside).Yields args rest ∧ s.functions.find? name = some callee ∧
          args.length = callee.arity ∧ Expr.call callee args = e) ∨
        (middle.kind ≠ .symbol .leftParen ∧
          ∃ h, (s.plainName name ts middle h).Yields e rest)) := by
  rw [named]
  simp only [Parsed.yields_andThen, Parsed.yields_identifier]
  constructor
  · rintro ⟨name, middle, hlt, hname, h⟩
    refine ⟨name, middle, hname, ?_⟩
    split at h
    · simp only [Parsed.yields_under, Parsed.yields_andThen, yields_callNamed] at h
      obtain ⟨args, _, _, hargs, callee, hcallee, harity, he, rfl⟩ := h
      exact .inl ⟨_, args, callee, accept?_eq_some_iff.1 ‹_›, hargs, hcallee, harity, he⟩
    · exact .inr ⟨accept?_eq_none_iff.1 ‹_›, hlt, h⟩
  · rintro ⟨name, middle, hname,
      (⟨inside, args, callee, hparen, hargs, hcallee, harity, he⟩ | ⟨hkind, hlt, h⟩)⟩
    · refine ⟨name, middle, hname.length_lt, hname, ?_⟩
      simp only [hparen.accept?, Parsed.yields_under, Parsed.yields_andThen, yields_callNamed]
      exact ⟨args, rest, hargs.length_lt, hargs, callee, hcallee, harity, he, rfl⟩
    · refine ⟨name, middle, hlt, hname, ?_⟩
      simpa [accept?_eq_none_iff.2 hkind] using h

/-! ## Operands -/

theorem yields_unary :
    (s.unary ts).Yields e rest ↔
      ((∀ op ∈ UnaryOp.all, ts.kind ≠ .symbol op.symbol) ∧ (s.primary ts).Yields e rest) ∨
        ∃ op ∈ UnaryOp.all, ∃ next operand, ts.Begins (.symbol op.symbol) next ∧
          (s.primary next).Yields operand rest ∧ operand.plays op.role ∧ op.apply operand = e := by
  rw [unary]
  constructor
  · intro h
    split at h
    · exact .inl ⟨operator?_eq_none_iff.1 ‹_›, h⟩
    · obtain ⟨hop, hbegins⟩ := (operator?_eq_some_iff UnaryOp.symbol_injective).1 ‹_›
      simp only [Parsed.yields_under, Parsed.yields_map, Parsed.yields_demand] at h
      obtain ⟨operand, ⟨hoperand, hrole⟩, he⟩ := h
      exact .inr ⟨_, hop, _, operand, hbegins, hoperand, hrole, he⟩
  · rintro (⟨hnone, h⟩ | ⟨op, hop, next, operand, hbegins, hoperand, hrole, he⟩)
    · simpa [operator?_eq_none_iff.2 hnone] using h
    · have hsome : ts.operator? UnaryOp.symbol UnaryOp.all = some (op, ⟨next, hbegins.length_lt⟩) :=
        (operator?_eq_some_iff UnaryOp.symbol_injective).2 ⟨hop, hbegins⟩
      simp only [hsome, Parsed.yields_under, Parsed.yields_map, Parsed.yields_demand]
      exact ⟨operand, ⟨hoperand, hrole⟩, he⟩

theorem yields_group :
    (s.group ts).Yields e rest ↔ ∃ inner middle after, (s.expression ts).Yields inner middle ∧
      middle.Begins (.symbol .rightParen) after ∧
        ((∃ type operand, inner = .castTarget type ∧ (s.expression after).Yields operand rest ∧
            operand.isObject ∧ Expr.convert type operand = e) ∨
          (inner.isObject ∧ (s.suffixes inner after).Yields e rest)) := by
  rw [group]
  simp only [Parsed.yields_andThen, Parsed.yields_under, Parsed.yields_expect]
  constructor
  · rintro ⟨inner, middle, _, hinner, _, after, _, hclose, h⟩
    refine ⟨inner, middle, after, hinner, hclose, ?_⟩
    split at h
    · simp only [Parsed.yields_under, Parsed.yields_map, Parsed.yields_noting,
        Parsed.yields_demand] at h
      obtain ⟨operand, ⟨hoperand, hrole⟩, he⟩ := h
      exact .inl ⟨_, operand, rfl, hoperand, hrole, he⟩
    · rename_i hnot
      refine .inr ⟨?_, by simpa using h⟩
      cases inner <;> first | rfl | exact absurd rfl (hnot _)
  · rintro ⟨inner, middle, after, hinner, hclose, h⟩
    refine ⟨inner, middle, hinner.length_lt, hinner, (), after, hclose.length_lt, hclose, ?_⟩
    rcases h with ⟨type, operand, rfl, hoperand, hrole, he⟩ | ⟨hobject, h⟩
    · simp only [Parsed.yields_under, Parsed.yields_map, Parsed.yields_noting, Parsed.yields_demand]
      exact ⟨operand, ⟨hoperand, hrole⟩, he⟩
    · cases inner <;> first | simpa using h | exact absurd hobject (by simp [Expr.isObject])

theorem yields_primary :
    (s.primary ts).Yields e rest ↔
      (∃ inside, ts.Begins (.symbol .leftParen) inside ∧ (s.group inside).Yields e rest) ∨
        ∃ base middle, ((s.named ts).Yields base middle ∨
            ∃ token, ts.Begins token middle ∧ Expr.ofLiteral? token = some base) ∧
          (s.suffixes base middle).Yields e rest := by
  have hnamed : ∀ {base middle}, (s.named ts).Yields base middle → ts.kind = .identifier := by
    intro base middle h
    obtain ⟨name, _, hname, _⟩ := yields_named.1 h
    exact hname.kind_eq
  rw [primary]
  constructor
  · intro h
    split at h
    · exact .inl ⟨_, accept?_eq_some_iff.1 ‹_›, by simpa using h⟩
    · simp only [Parsed.yields_andThen, Parsed.yields_within] at h
      obtain ⟨base, middle, _, hbase, h⟩ := h
      refine .inr ⟨base, middle, ?_, h⟩
      split at hbase
      · exact .inl hbase
      · exact .inr (Parsed.yields_literal.1 hbase)
  · rintro (⟨inside, hparen, h⟩ | ⟨base, middle, hbase, h⟩)
    · simpa [hparen.accept?] using h
    · rcases hbase with hbase | ⟨token, hbegins, hbase⟩
      · have hkind := hnamed hbase
        have hnone : ts.accept? (.symbol .leftParen) = none := accept?_eq_none_iff.2 (by simp [hkind])
        simp only [hnone, hkind, if_true, Parsed.yields_andThen, Parsed.yields_within]
        exact ⟨base, middle, hbase.length_lt, hbase, h⟩
      · obtain ⟨hident, hsymbol⟩ := Parsed.literal_kind_ne hbase
        have hnone : ts.accept? (.symbol .leftParen) = none :=
          accept?_eq_none_iff.2 (hbegins.kind_eq ▸ hsymbol _)
        simp only [hnone, hbegins.kind_eq, hident, if_false, Parsed.yields_andThen, Parsed.yields_within,
          Parsed.yields_literal]
        exact ⟨base, middle, hbegins.length_lt, ⟨token, hbegins, hbase⟩, h⟩

/-! ## Suffixes and members -/

theorem yields_suffixes {base : Expr σ} :
    (s.suffixes base ts).Yields e rest ↔
      (ts.kind ≠ .symbol .leftBracket ∧ ts.kind ≠ .symbol .dot ∧ base = e ∧ ts = rest) ∨
        (∃ inside type index close after, ts.Begins (.symbol .leftBracket) inside ∧
          base.type = .list type ∧ (s.expression inside).Yields index close ∧ index.isNumeric ∧
          close.Begins (.symbol .rightBracket) after ∧
          (s.suffixes (.element base index type) after).Yields e rest) ∨
        ∃ name access after, ts.Begins (.symbol .dot) name ∧ base.isObject ∧ base.type ≠ .void ∧
          (s.member base name).Yields access after ∧ (s.suffixes access after).Yields e rest := by
  rw [suffixes]
  constructor
  · intro h
    split at h
    · have hbracket := accept?_eq_some_iff.1 ‹_›
      split at h
      · simp only [Parsed.yields_loose, Parsed.yields_under, Parsed.yields_andThen,
          Parsed.yields_demand, Parsed.yields_expect, Parsed.yields_within] at h
        obtain ⟨index, close, _, ⟨hindex, hnum⟩, _, after, _, hclose, h⟩ := h
        exact .inr (.inl ⟨_, _, index, close, after, hbracket, ‹_›, hindex, hnum, hclose, h⟩)
      · exact absurd h (by simp)
    · split at h
      · split at h
        · rename_i hbase
          simp only [Parsed.yields_loose, Parsed.yields_under, Parsed.yields_andThen,
            Parsed.yields_within] at h
          obtain ⟨access, after, _, haccess, h⟩ := h
          exact .inr (.inr ⟨_, access, after, accept?_eq_some_iff.1 ‹_›, hbase.1, hbase.2, haccess, h⟩)
        · exact absurd h (by simp)
      · exact .inl ⟨accept?_eq_none_iff.1 ‹_›, accept?_eq_none_iff.1 ‹_›, by simpa using h⟩
  · rintro (⟨hbracket, hdot, rfl, rfl⟩ |
      ⟨inside, type, index, close, after, hbracket, htype, hindex, hnum, hclose, h⟩ |
      ⟨name, access, after, hdot, hobject, hvoid, haccess, h⟩)
    · simp [accept?_eq_none_iff.2 hbracket, accept?_eq_none_iff.2 hdot]
    · simp only [hbracket.accept?, htype, Parsed.yields_loose, Parsed.yields_under,
        Parsed.yields_andThen, Parsed.yields_demand, Parsed.yields_expect, Parsed.yields_within]
      exact ⟨index, close, hindex.length_lt, ⟨hindex, hnum⟩, (), after, hclose.length_lt, hclose, h⟩
    · have hbracket : ts.accept? (.symbol .leftBracket) = none := hdot.accept?_eq_none (by decide)
      simp only [hbracket, hdot.accept?, hobject, hvoid, ne_eq, not_false_eq_true, and_self, if_true,
        Parsed.yields_loose, Parsed.yields_under, Parsed.yields_andThen, Parsed.yields_within]
      exact ⟨access, after, haccess.length_lt, haccess, h⟩

theorem yields_plainMember {object : Expr σ} {name : String} {place middle : Tokens}
    {h : middle.length < place.length} :
    (s.plainMember object name place middle h).Yields e rest ↔ ∃ member others,
      s.catalog.members object.type name = member :: others ∧ Expr.property object member = e ∧
        middle = rest := by
  unfold plainMember
  split
  · simp_all
  · split <;> simp_all

theorem yields_typeArgument {type : Ty} :
    (s.typeArgument ts).Yields type rest ↔ ∃ name, ts.Begins (.identifier name) rest ∧
      (s.vars.find? name <|> s.types.find? name) = some type := by
  simp only [typeArgument, Parsed.yields_andThen, Parsed.yields_identifier, Parsed.yields_require]
  constructor
  · rintro ⟨name, middle, _, hname, htype, rfl⟩
    exact ⟨name, hname, htype⟩
  · rintro ⟨name, hname, htype⟩
    exact ⟨name, rest, hname.length_lt, hname, htype, rfl⟩

theorem yields_typeArgumentList {types : List Ty} :
    (s.typeArgumentList ts).Yields types rest ↔ ∃ type middle,
      (s.typeArgument ts).Yields type middle ∧
        ((∃ more others, middle.Begins (.symbol .comma) more ∧
            (s.typeArgumentList more).Yields others rest ∧ type :: others = types) ∨
          (middle.Begins (.symbol .greater) rest ∧ [type] = types)) := by
  rw [typeArgumentList]
  simp only [Parsed.yields_andThen]
  constructor
  · rintro ⟨type, middle, _, htype, h⟩
    refine ⟨type, middle, htype, ?_⟩
    split at h
    · simp only [Parsed.yields_under, Parsed.yields_map] at h
      obtain ⟨others, hothers, heq⟩ := h
      exact .inl ⟨_, others, accept?_eq_some_iff.1 ‹_›, hothers, heq⟩
    · simp only [Parsed.yields_under, Parsed.yields_map, Parsed.yields_expect] at h
      obtain ⟨_, hclose, heq⟩ := h
      exact .inr ⟨hclose, heq⟩
  · rintro ⟨type, middle, htype, (⟨more, others, hcomma, hothers, heq⟩ | ⟨hclose, heq⟩)⟩
    · refine ⟨type, middle, htype.length_lt, htype, ?_⟩
      simp only [hcomma.accept?, Parsed.yields_under, Parsed.yields_map]
      exact ⟨others, hothers, heq⟩
    · have hnone : middle.accept? (.symbol .comma) = none := hclose.accept?_eq_none (by decide)
      refine ⟨type, middle, htype.length_lt, htype, ?_⟩
      simp only [hnone, Parsed.yields_under, Parsed.yields_map, Parsed.yields_expect]
      exact ⟨(), hclose, heq⟩

theorem yields_typeArguments {types : List Ty} :
    (s.typeArguments ts).Yields types rest ↔ ∃ inside, ts.Begins (.symbol .less) inside ∧
      (s.typeArgumentList inside).Yields types rest := by
  simp only [typeArguments, Parsed.yields_andThen, Parsed.yields_expect, Parsed.yields_under]
  constructor
  · rintro ⟨_, inside, _, hless, h⟩
    exact ⟨inside, hless, h⟩
  · rintro ⟨inside, hless, h⟩
    exact ⟨(), inside, hless.length_lt, hless, h⟩

theorem yields_member {object : Expr σ} :
    (s.member object ts).Yields e rest ↔ ∃ name middle, ts.Begins (.identifier name) middle ∧
      ((∃ inside args callee, middle.Begins (.symbol .leftParen) inside ∧
          (s.arguments inside).Yields args rest ∧
          (Overload.resolve s.catalog s.helpers object.type name (args.map Expr.type)).value =
            .ok callee ∧
          Expr.method object callee args = e) ∨
        (s.catalog.hasGenericMethod object.type name ∧ ∃ typeArgs bracket inside args callee,
          (s.typeArguments middle).Yields typeArgs bracket ∧
          bracket.Begins (.symbol .leftParen) inside ∧ (s.arguments inside).Yields args rest ∧
          (Overload.resolveGeneric s.catalog object.type name typeArgs (args.map Expr.type)).value =
            .ok callee ∧
          Expr.method object (callee.instantiate typeArgs) args = e) ∨
        (middle.kind ≠ .symbol .leftParen ∧
          ¬ (middle.kind = .symbol .less ∧ s.catalog.hasGenericMethod object.type name) ∧
          ∃ member others, s.catalog.members object.type name = member :: others ∧
            Expr.property object member = e ∧ middle = rest)) := by
  rw [member]
  simp only [Parsed.yields_andThen, Parsed.yields_identifier]
  constructor
  · rintro ⟨name, middle, _, hname, h⟩
    refine ⟨name, middle, hname, ?_⟩
    split at h
    · simp only [Parsed.yields_under, Parsed.yields_andThen, Parsed.yields_map,
        Parsed.yields_choose] at h
      obtain ⟨args, _, _, hargs, callee, ⟨hcallee, rfl⟩, he⟩ := h
      exact .inl ⟨_, args, callee, accept?_eq_some_iff.1 ‹_›, hargs, hcallee, he⟩
    · have hparen := accept?_eq_none_iff.1 ‹_›
      split at h
      · rename_i hgeneric
        simp only [Parsed.yields_under, Parsed.yields_andThen, Parsed.yields_expect,
          Parsed.yields_map, Parsed.yields_choose] at h
        obtain ⟨typeArgs, bracket, _, htypes, _, inside, _, hbracket, args, _, _, hargs, callee,
          ⟨hcallee, rfl⟩, he⟩ := h
        exact .inr (.inl ⟨hgeneric.2, typeArgs, bracket, inside, args, callee, htypes, hbracket,
          hargs, hcallee, he⟩)
      · exact .inr (.inr ⟨hparen, ‹_›, yields_plainMember.1 h⟩)
  · rintro ⟨name, middle, hname, h⟩
    refine ⟨name, middle, hname.length_lt, hname, ?_⟩
    rcases h with ⟨inside, args, callee, hparen, hargs, hcallee, he⟩ |
      ⟨hgeneric, typeArgs, bracket, inside, args, callee, htypes, hbracket, hargs, hcallee, he⟩ |
      ⟨hparen, hgeneric, hmember⟩
    · simp only [hparen.accept?, Parsed.yields_under, Parsed.yields_andThen, Parsed.yields_map,
        Parsed.yields_choose]
      exact ⟨args, rest, hargs.length_lt, hargs, callee, ⟨hcallee, rfl⟩, he⟩
    · obtain ⟨_, hless, _⟩ := yields_typeArguments.1 htypes
      have hkind : middle.kind = .symbol .less := hless.kind_eq
      have hnone : middle.accept? (.symbol .leftParen) = none := hless.accept?_eq_none (by decide)
      simp only [hnone, hkind, hgeneric, and_self, if_true, Parsed.yields_under,
        Parsed.yields_andThen, Parsed.yields_expect, Parsed.yields_map, Parsed.yields_choose]
      exact ⟨typeArgs, bracket, htypes.length_lt, htypes, (), inside, hbracket.length_lt, hbracket,
        args, rest, hargs.length_lt, hargs, callee, ⟨hcallee, rfl⟩, he⟩
    · simp only [accept?_eq_none_iff.2 hparen, hgeneric, if_false]
      exact yields_plainMember.2 hmember

/-! ## Arguments and the whole text -/

theorem yields_arguments {args : List (Expr σ)} :
    (s.arguments ts).Yields args rest ↔ (ts.Begins (.symbol .rightParen) rest ∧ [] = args) ∨
      (ts.kind ≠ .symbol .rightParen ∧ (s.argumentList ts).Yields args rest) := by
  rw [arguments]
  constructor
  · intro h
    split at h
    · obtain ⟨rfl, rfl⟩ := Parsed.yields_yield.1 h
      exact .inl ⟨accept?_eq_some_iff.1 ‹_›, rfl⟩
    · exact .inr ⟨accept?_eq_none_iff.1 ‹_›, h⟩
  · rintro (⟨hclose, rfl⟩ | ⟨hkind, h⟩)
    · simp [hclose.accept?]
    · simpa [accept?_eq_none_iff.2 hkind] using h

theorem yields_argumentList {args : List (Expr σ)} :
    (s.argumentList ts).Yields args rest ↔ ∃ arg middle, (s.expression ts).Yields arg middle ∧
      arg.isObject ∧
        ((∃ more others, middle.Begins (.symbol .comma) more ∧
            (s.argumentList more).Yields others rest ∧ arg :: others = args) ∨
          (middle.Begins (.symbol .rightParen) rest ∧ [arg] = args)) := by
  rw [argumentList]
  simp only [Parsed.yields_andThen, Parsed.yields_demand]
  constructor
  · rintro ⟨arg, middle, _, ⟨harg, hobject⟩, h⟩
    refine ⟨arg, middle, harg, hobject, ?_⟩
    split at h
    · simp only [Parsed.yields_under, Parsed.yields_map] at h
      obtain ⟨others, hothers, heq⟩ := h
      exact .inl ⟨_, others, accept?_eq_some_iff.1 ‹_›, hothers, heq⟩
    · simp only [Parsed.yields_under, Parsed.yields_map, Parsed.yields_expect] at h
      obtain ⟨_, hclose, heq⟩ := h
      exact .inr ⟨hclose, heq⟩
  · rintro ⟨arg, middle, harg, hobject, (⟨more, others, hcomma, hothers, heq⟩ | ⟨hclose, heq⟩)⟩
    · refine ⟨arg, middle, harg.length_lt, ⟨harg, hobject⟩, ?_⟩
      simp only [hcomma.accept?, Parsed.yields_under, Parsed.yields_map]
      exact ⟨others, hothers, heq⟩
    · have hnone : middle.accept? (.symbol .comma) = none := hclose.accept?_eq_none (by decide)
      refine ⟨arg, middle, harg.length_lt, ⟨harg, hobject⟩, ?_⟩
      simp only [hnone, Parsed.yields_under, Parsed.yields_map, Parsed.yields_expect]
      exact ⟨(), hclose, heq⟩

theorem yields_wholeExpression :
    (s.wholeExpression ts).Yields e rest ↔ rest = [] ∧ (s.expression ts).Yields e [] := by
  simp only [wholeExpression, Parsed.yields_andThen]
  constructor
  · rintro ⟨e', middle, _, he, h⟩
    cases middle with
    | nil =>
      obtain ⟨rfl, rfl⟩ := Parsed.yields_yield.1 h
      exact ⟨rfl, he⟩
    | cons l middle => exact absurd h Parsed.yields_fail
  · rintro ⟨rfl, he⟩
    exact ⟨e, [], he.length_lt, he, by simp⟩

end Session

end HostExpr
