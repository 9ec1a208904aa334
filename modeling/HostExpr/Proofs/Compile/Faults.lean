-- SUMMARY: Every error of compilation points at the token that it is about, or at the end of the text.
import HostExpr.Proofs.Compile.Soundness
import HostExpr.Proofs.Compile.Unambiguous
import HostExpr.Proofs.Compile.Respacing
import HostExpr.Proofs.Overload

/-!
# Faults and their places

A fault keeps what was left to read at its place. `Cause.PointsAt` says for each cause what stands there
and what is wrong with it in the session: an unexpected token is the first one, a name that cannot be
resolved begins the rest, and so on. Arguments and type arguments are read between a name and the fault
that reports it; the place stays at the name.

Each reader fails in such faults only, if what it reads is the end of the whole text. From that, the
position of an error of compilation is that of a token of the text, or the length of the text.
-/

namespace HostExpr

variable {σ : Type}

/-! ## Outcomes that fail -/

namespace Parsed

variable {α β : Type} {n m : Nat} {E : Fault → Prop} {ts : Tokens}

/-- If the outcome is a fault, it is one of `E`. -/
def FailsIn (E : Fault → Prop) : Parsed α n → Prop
  | done _ _ _ _ => True
  | failed _ fault => E fault

@[simp] theorem failsIn_after {log : List Record} {p : Parsed α n} :
    (p.after log).FailsIn E ↔ p.FailsIn E := by
  cases p <;> rfl

/-- Of two parts, the first one fails, or the second one wherever the first one leads. -/
theorem FailsIn.andThen {p : Parsed α n}
    {next : (a : α) → (rest : Tokens) → rest.length < n → Parsed β n} (hp : p.FailsIn E)
    (hnext : ∀ a rest h, p.Yields a rest → (next a rest h).FailsIn E) : (p.andThen next).FailsIn E := by
  cases p with
  | done log a rest h => exact failsIn_after.2 (hnext a rest h ⟨log, h, rfl⟩)
  | failed log fault => exact hp

@[simp] theorem failsIn_map {f : α → β} {p : Parsed α n} : (p.map f).FailsIn E ↔ p.FailsIn E := by
  cases p <;> rfl

@[simp] theorem failsIn_within {h : m ≤ n} {p : Parsed α m} :
    (p.within h).FailsIn E ↔ p.FailsIn E := by
  cases p <;> rfl

@[simp] theorem failsIn_under {h : m < n} {p : Parsed α m} : (p.under h).FailsIn E ↔ p.FailsIn E :=
  failsIn_within

@[simp] theorem failsIn_loose {p : Parsed α n} : p.loose.FailsIn E ↔ p.FailsIn E := failsIn_within

@[simp] theorem failsIn_noting {message : α → String} {p : Parsed α n} :
    (p.noting message).FailsIn E ↔ p.FailsIn E := by
  cases p <;> rfl

theorem failsIn_require {a : Option α} {cause : Cause} {place rest : Tokens} {h : rest.length < n}
    (hnone : a = none → E ⟨cause, place⟩) : (require a cause place rest h).FailsIn E := by
  cases a with
  | some a => trivial
  | none => exact hnone rfl

theorem failsIn_choose {choice : Logged (Except Cause α)} {place rest : Tokens} {h : rest.length < n}
    (herror : ∀ cause, choice.value = .error cause → E ⟨cause, place⟩) :
    (choose choice place rest h).FailsIn E := by
  unfold choose
  split
  · trivial
  · exact herror _ ‹_›

theorem FailsIn.demand {p : Parsed (Expr σ) n} {role : Role} {place : Tokens} (hp : p.FailsIn E)
    (hrole : ∀ e rest, p.Yields e rest → E ⟨.wrongRole role e.text, place⟩) :
    (p.demand role place).FailsIn E := by
  refine hp.andThen fun e rest h he => ?_
  split
  · trivial
  · exact hrole e rest he

/-- Reading a token fails where it looks. -/
theorem failsIn_token {expected : String} {f : Token → Option α}
    (h : (unexpected expected ts : Parsed α ts.length).FailsIn E) : (token expected f ts).FailsIn E := by
  cases ts with
  | nil => exact h
  | cons l rest =>
    unfold token
    dsimp only
    split
    · trivial
    · exact h

end Parsed

/-! ## What stands at the place of a fault -/

namespace Session

/-- Arguments in parentheses follow. -/
def Called (s : Session σ) (ts : Tokens) (args : List (Expr σ)) : Prop :=
  ∃ inside after, ts.Begins (.symbol .leftParen) inside ∧ (s.arguments inside).Yields args after

/-- A name after a point is called, with type arguments or without, and does not mean a method of a type
for the given cause. -/
def Unresolved (s : Session σ) (whole place : Tokens) (cause : Cause) : Prop :=
  ∃ (dot rest : Tokens) (name : String) (ty : Ty) (args : List (Expr σ)), dot <:+ whole ∧
    dot.Begins (.symbol .dot) place ∧ place.Begins (.identifier name) rest ∧
      ((s.Called rest args ∧
          (Overload.resolve s.catalog s.helpers ty name (args.map Expr.type)).value = .error cause) ∨
        ∃ typeArgs bracket, s.catalog.hasGenericMethod ty name ∧
          (s.typeArguments rest).Yields typeArgs bracket ∧ s.Called bracket args ∧
          (Overload.resolveGeneric s.catalog ty name typeArgs (args.map Expr.type)).value = .error cause)

end Session

/-- The cause is about what stands at the place, which is the end of the whole text. -/
def Cause.PointsAt (s : Session σ) (whole place : Tokens) : Cause → Prop
  | .lexical _ => False
  | .unexpectedToken _ found => ∃ l rest, place = l :: rest ∧ found = l.found
  | .unexpectedEnd _ => place = []
  | .trailingTokens token => ∃ l rest, place = l :: rest ∧ token = l.found
  | .unknownVariable name => ∃ rest, place.Begins (.identifier name) rest ∧
      s.vars.find? name = none ∧ s.types.find? name = none
  | .unknownFunction name => ∃ rest args, place.Begins (.identifier name) rest ∧ s.Called rest args ∧
      s.functions.find? name = none
  | .argumentCount name expected found => ∃ rest args callee, place.Begins (.identifier name) rest ∧
      s.Called rest args ∧ s.functions.find? name = some callee ∧ expected = callee.arity ∧
      found = args.length ∧ found ≠ expected
  | .unknownEnumMember enum member => ∃ (named dot rest : Tokens) (type : EnumType),
      named <:+ whole ∧ named.Begins (.identifier enum) dot ∧ dot.Begins (.symbol .dot) place ∧
      place.Begins (.identifier member) rest ∧ s.types.find? enum = some (.enum type) ∧
      type.valueOf? member = none
  | .unknownMember type member => ∃ (dot rest : Tokens) (ty : Ty), dot <:+ whole ∧
      dot.Begins (.symbol .dot) place ∧ place.Begins (.identifier member) rest ∧ type = ty.text ∧
      s.catalog.members ty member = [] ∧ s.catalog.methods ty member = []
  | .unknownMethod type method arguments =>
      s.Unresolved whole place (.unknownMethod type method arguments)
  | .ambiguousMethod type method => s.Unresolved whole place (.ambiguousMethod type method)
  | .wrongRole _ _ => place ≠ []
  | .cannotAccessMember _ => place.kind = .symbol .dot
  | .cannotIndex _ => place.kind = .symbol .leftBracket
  | .other _ => ∃ (named : Tokens) (name : String), named <:+ whole ∧
      named.Begins (.identifier name) place

/-- The fault has its place in the text, and is about what stands there. -/
structure Fault.PointsInto (s : Session σ) (whole : Tokens) (fault : Fault) : Prop where
  isSuffix : fault.place <:+ whole
  pointsAt : fault.cause.PointsAt s whole fault.place

namespace Session

open Tokens Parsed

variable {s : Session σ} {whole ts : Tokens}

/-! ## Tokens, names and members -/

theorem faults_token {α : Type} {expected : String} {f : Token → Option α} (h : ts <:+ whole) :
    (token expected f ts).FailsIn (Fault.PointsInto s whole) := by
  refine failsIn_token ?_
  cases ts with
  | nil => exact ⟨h, rfl⟩
  | cons l rest => exact ⟨h, l, rest, rfl, rfl⟩

/-- What has the wrong role has its place where it was read. -/
theorem faults_demand {p : Parsed (Expr σ) ts.length} {role : Role} (h : ts <:+ whole)
    (hp : p.FailsIn (Fault.PointsInto s whole)) :
    (p.demand role ts).FailsIn (Fault.PointsInto s whole) := by
  exact hp.demand fun e rest he =>
    ⟨h, List.ne_nil_of_length_pos (Nat.zero_lt_of_lt he.length_lt)⟩

theorem faults_enumMember {name : String} {type : EnumType} {named : Tokens} (h : named <:+ whole)
    (hname : named.Begins (.identifier name) ts) (htype : s.types.find? name = some (.enum type)) :
    (enumMember name type ts : Parsed (Expr σ) _).FailsIn (Fault.PointsInto s whole) := by
  have hts := hname.isSuffix.trans h
  refine (faults_token hts).andThen fun _ place hlt hdot => ?_
  have hdot := yields_expect.1 hdot
  have hplace := hdot.isSuffix.trans hts
  refine failsIn_under.2 ((faults_token hplace).andThen fun member rest hr hmember => ?_)
  refine failsIn_require fun hnone => ⟨hplace, named, ts, rest, type, h, hname, hdot, ?_, htype, ?_⟩
  · exact yields_identifier.1 hmember
  · exact Option.map_eq_none_iff.1 hnone

theorem faults_plainName {name : String} {place rest : Tokens} {hlt : rest.length < place.length}
    (h : place <:+ whole) (hname : place.Begins (.identifier name) rest) :
    (s.plainName name place rest hlt).FailsIn (Fault.PointsInto s whole) := by
  unfold plainName
  split
  · trivial
  · split
    · exact ⟨h, rest, hname, ‹_›, ‹_›⟩
    · split
      · trivial
      · split
        · exact failsIn_under.2 (faults_enumMember h hname ‹_›)
        · trivial

theorem faults_callNamed {name : String} {args : List (Expr σ)} {place rest middle : Tokens} {n : Nat}
    {hlt : rest.length < n} (h : place <:+ whole) (hname : place.Begins (.identifier name) middle)
    (hargs : s.Called middle args) :
    (s.callNamed name args place rest hlt).FailsIn (Fault.PointsInto s whole) := by
  unfold callNamed
  split
  · exact ⟨h, middle, args, hname, hargs, ‹_›⟩
  · split
    · trivial
    · exact ⟨h, middle, args, _, hname, hargs, ‹_›, rfl, rfl, ‹_›⟩

theorem faults_typeArgument (h : ts <:+ whole) :
    (s.typeArgument ts).FailsIn (Fault.PointsInto s whole) := by
  refine (faults_token h).andThen fun name rest hlt hname => failsIn_require fun hnone => ?_
  obtain ⟨hvars, htypes⟩ : s.vars.find? name = none ∧ s.types.find? name = none := by
    simpa using hnone
  exact ⟨h, rest, yields_identifier.1 hname, hvars, htypes⟩

theorem faults_typeArgumentList {ts : Tokens} (h : ts <:+ whole) :
    (s.typeArgumentList ts).FailsIn (Fault.PointsInto s whole) := by
  rw [typeArgumentList]
  refine (faults_typeArgument h).andThen fun type rest hlt htype => ?_
  obtain ⟨name, hname, -⟩ := yields_typeArgument.1 htype
  have hrest := hname.isSuffix.trans h
  split
  · rename_i more hm hcomma
    have hmore : more <:+ whole := (accept?_eq_some_iff.1 hcomma).isSuffix.trans hrest
    exact failsIn_under.2 (failsIn_under.2 (failsIn_map.2 (faults_typeArgumentList hmore)))
  · exact failsIn_under.2 (failsIn_map.2 (faults_token hrest))
termination_by ts.length

theorem faults_typeArguments (h : ts <:+ whole) :
    (s.typeArguments ts).FailsIn (Fault.PointsInto s whole) := by
  refine (faults_token h).andThen fun _ rest hlt hless => failsIn_under.2 ?_
  exact faults_typeArgumentList ((yields_expect.1 hless).isSuffix.trans h)

theorem faults_plainMember {object : Expr σ} {name : String} {dot place rest : Tokens}
    {hlt : rest.length < place.length} (h : dot <:+ whole) (hdot : dot.Begins (.symbol .dot) place)
    (hname : place.Begins (.identifier name) rest) :
    (s.plainMember object name place rest hlt).FailsIn (Fault.PointsInto s whole) := by
  have hplace := hdot.isSuffix.trans h
  unfold plainMember
  split
  · trivial
  · split
    · exact ⟨hplace, dot, rest, object.type, h, hdot, hname, rfl, ‹_›, ‹_›⟩
    · exact ⟨hname.isSuffix.trans hplace, place, name, hplace, hname⟩

/-! ## Expressions -/

mutual

theorem faults_expression {ts : Tokens} (h : ts <:+ whole) :
    (s.expression ts).FailsIn (Fault.PointsInto s whole) := by
  rw [expression]
  refine (faults_level h).andThen fun condition rest hlt hcondition => ?_
  obtain ⟨d, hd⟩ := derives_level hcondition
  have hrest := hd.isSuffix.trans h
  split
  · trivial
  · rename_i yes hy hquestion
    have hyes : yes <:+ whole := (accept?_eq_some_iff.1 hquestion).isSuffix.trans hrest
    split
    · refine failsIn_under.2 (failsIn_under.2 ?_)
      refine (faults_demand hyes (faults_expression hyes)).andThen fun left colon hl hleft => ?_
      obtain ⟨d, hd⟩ := derives_expression (yields_demand.1 hleft).1
      have hcolon := hd.isSuffix.trans hyes
      refine failsIn_under.2 ((faults_token hcolon).andThen fun _ no hn hmark => failsIn_under.2 ?_)
      have hno := (yields_expect.1 hmark).isSuffix.trans hcolon
      exact failsIn_map.2 (failsIn_noting.2 (faults_demand hno (faults_expression hno)))
    · exact ⟨h, List.ne_nil_of_length_pos (Nat.zero_lt_of_lt hlt)⟩
termination_by 32 * ts.length + 23
decreasing_by
  all_goals have := Precedence.looseness_le .or
  all_goals omega

theorem faults_level {p : Precedence} {ts : Tokens} (h : ts <:+ whole) :
    (s.level p ts).FailsIn (Fault.PointsInto s whole) := by
  rw [level]
  refine (faults_operand h).andThen fun left rest hlt hleft => failsIn_within.2 ?_
  obtain ⟨d, hd⟩ := derives_operand hleft
  exact faults_chain h (List.ne_nil_of_length_pos (Nat.zero_lt_of_lt hlt)) (hd.isSuffix.trans h)
termination_by 32 * ts.length + 2 * p.looseness + 4

theorem faults_operand {p : Precedence} {ts : Tokens} (h : ts <:+ whole) :
    (s.operand p ts).FailsIn (Fault.PointsInto s whole) := by
  rw [operand]
  split
  · have := Precedence.looseness_tighter? ‹_›
    exact faults_level h
  · exact faults_unary h
termination_by 32 * ts.length + 2 * p.looseness + 3

/-- The operations that follow an operand, which began at `start`. -/
theorem faults_chain {p : Precedence} {start : Tokens} {left : Expr σ} {ts : Tokens}
    (hstart : start <:+ whole) (hne : start ≠ []) (h : ts <:+ whole) :
    (s.chain p start left ts).FailsIn (Fault.PointsInto s whole) := by
  rw [chain]
  split
  · trivial
  · rename_i op rest hlt hoperator
    have := Precedence.looseness_le p
    have hbegins := ((operator?_eq_some_iff BinaryOp.symbol_injective).1 hoperator).2
    have hrest : rest <:+ whole := hbegins.isSuffix.trans h
    split
    · refine failsIn_loose.2 (failsIn_under.2 ?_)
      refine (faults_demand hrest (faults_operand hrest)).andThen fun right after ha hright => ?_
      obtain ⟨d, hd⟩ := derives_operand (yields_demand.1 hright).1
      split
      · exact failsIn_within.2 (faults_chain hstart hne (hd.isSuffix.trans hrest))
      · trivial
    · exact ⟨hstart, hne⟩
termination_by 32 * ts.length

theorem faults_unary {ts : Tokens} (h : ts <:+ whole) :
    (s.unary ts).FailsIn (Fault.PointsInto s whole) := by
  rw [unary]
  split
  · exact faults_primary h
  · rename_i op rest hlt hoperator
    have hbegins := ((operator?_eq_some_iff UnaryOp.symbol_injective).1 hoperator).2
    have hrest : rest <:+ whole := hbegins.isSuffix.trans h
    exact failsIn_under.2 (failsIn_map.2 (faults_demand hrest (faults_primary hrest)))
termination_by 32 * ts.length + 2

theorem faults_primary {ts : Tokens} (h : ts <:+ whole) :
    (s.primary ts).FailsIn (Fault.PointsInto s whole) := by
  rw [primary]
  split
  · rename_i inside hlt hopen
    have hinside : inside <:+ whole := (accept?_eq_some_iff.1 hopen).isSuffix.trans h
    exact failsIn_under.2 (faults_group hinside)
  · by_cases hkind : ts.kind = .identifier
    · simp only [hkind, if_true]
      refine (faults_named h).andThen fun e rest hlt he => failsIn_within.2 ?_
      obtain ⟨d, hd⟩ := derives_named he
      exact faults_suffixes (hd.isSuffix.trans h)
    · simp only [hkind, if_false]
      refine (faults_token h).andThen fun e rest hlt he => failsIn_within.2 ?_
      obtain ⟨token, hbegins, -⟩ := yields_literal.1 he
      exact faults_suffixes (hbegins.isSuffix.trans h)
termination_by 32 * ts.length + 1

theorem faults_group {ts : Tokens} (h : ts <:+ whole) :
    (s.group ts).FailsIn (Fault.PointsInto s whole) := by
  rw [group]
  refine (faults_expression h).andThen fun inner rest hlt hinner => failsIn_under.2 ?_
  obtain ⟨d, hd⟩ := derives_expression hinner
  have hrest := hd.isSuffix.trans h
  refine (faults_token hrest).andThen fun _ after ha hclose => ?_
  have hafter := (yields_expect.1 hclose).isSuffix.trans hrest
  split
  · exact failsIn_under.2 (failsIn_map.2 (failsIn_noting.2
      (faults_demand hafter (faults_expression hafter))))
  · exact failsIn_within.2 (faults_suffixes hafter)
termination_by 32 * ts.length + 24

theorem faults_named {ts : Tokens} (h : ts <:+ whole) :
    (s.named ts).FailsIn (Fault.PointsInto s whole) := by
  rw [named]
  refine (faults_token h).andThen fun name rest hlt hname => ?_
  have hname := yields_identifier.1 hname
  split
  · rename_i inside hi hopen
    have hopen : rest.Begins (.symbol .leftParen) inside := accept?_eq_some_iff.1 hopen
    have hinside := (hopen.isSuffix.trans hname.isSuffix).trans h
    refine failsIn_under.2 (failsIn_under.2 ?_)
    refine (faults_arguments hinside).andThen fun args after ha hargs => ?_
    exact faults_callNamed h hname ⟨inside, after, hopen, hargs⟩
  · exact faults_plainName h hname
termination_by 32 * ts.length

theorem faults_suffixes {e : Expr σ} {ts : Tokens} (h : ts <:+ whole) :
    (s.suffixes e ts).FailsIn (Fault.PointsInto s whole) := by
  rw [suffixes]
  split
  · rename_i inside hlt hopen
    have hopen : ts.Begins (.symbol .leftBracket) inside := accept?_eq_some_iff.1 hopen
    have hinside := hopen.isSuffix.trans h
    split
    · refine failsIn_loose.2 (failsIn_under.2 ?_)
      refine (faults_demand hinside (faults_expression hinside)).andThen fun index rest hr hindex => ?_
      obtain ⟨d, hd⟩ := derives_expression (yields_demand.1 hindex).1
      have hrest := hd.isSuffix.trans hinside
      refine failsIn_under.2 ((faults_token hrest).andThen fun _ after ha hclose => ?_)
      exact failsIn_within.2 (faults_suffixes ((yields_expect.1 hclose).isSuffix.trans hrest))
    · exact ⟨h, hopen.kind_eq⟩
  · split
    · rename_i name hlt hdot
      have hdot : ts.Begins (.symbol .dot) name := accept?_eq_some_iff.1 hdot
      split
      · refine failsIn_loose.2 (failsIn_under.2 ?_)
        refine (faults_member h hdot).andThen fun access after ha haccess => failsIn_within.2 ?_
        obtain ⟨d, hd⟩ := derives_member haccess
        exact faults_suffixes ((hd.isSuffix.trans hdot.isSuffix).trans h)
      · exact ⟨h, hdot.kind_eq⟩
    · trivial
termination_by 32 * ts.length

/-- A member after its point. -/
theorem faults_member {object : Expr σ} {dot ts : Tokens} (h : dot <:+ whole)
    (hdot : dot.Begins (.symbol .dot) ts) :
    (s.member object ts).FailsIn (Fault.PointsInto s whole) := by
  have hts := hdot.isSuffix.trans h
  rw [member]
  refine (faults_token hts).andThen fun name rest hlt hname => ?_
  have hname := yields_identifier.1 hname
  have hrest := hname.isSuffix.trans hts
  split
  · rename_i inside hi hopen
    have hopen : rest.Begins (.symbol .leftParen) inside := accept?_eq_some_iff.1 hopen
    refine failsIn_under.2 (failsIn_under.2 ?_)
    refine (faults_arguments (hopen.isSuffix.trans hrest)).andThen fun args after ha hargs => ?_
    refine failsIn_map.2 (failsIn_choose fun cause hcause => ⟨hts, ?_⟩)
    have hunresolved : s.Unresolved whole ts cause :=
      ⟨dot, rest, name, object.type, args, h, hdot, hname, .inl
        ⟨⟨inside, after, hopen, hargs⟩, hcause⟩⟩
    obtain rfl := Overload.cause_of_resolve hcause
    exact hunresolved
  · split
    · rename_i hgeneric
      refine failsIn_under.2 ?_
      refine (faults_typeArguments hrest).andThen fun typeArgs bracket hb htypes => ?_
      obtain ⟨types, hless, htypes'⟩ := yields_typeArguments.1 htypes
      have hbracket := ((typeArguments_of_yields htypes').isSuffix.trans hless.isSuffix).trans hrest
      refine failsIn_under.2 ((faults_token hbracket).andThen fun _ inside hi hopen => ?_)
      have hopen := yields_expect.1 hopen
      refine failsIn_under.2 ?_
      refine (faults_arguments (hopen.isSuffix.trans hbracket)).andThen fun args after ha hargs => ?_
      refine failsIn_map.2 (failsIn_choose fun cause hcause => ⟨hts, ?_⟩)
      have hunresolved : s.Unresolved whole ts cause :=
        ⟨dot, rest, name, object.type, args, h, hdot, hname, .inr
          ⟨typeArgs, bracket, hgeneric.2, htypes, ⟨inside, after, hopen, hargs⟩, hcause⟩⟩
      rcases Overload.cause_of_resolveGeneric hcause with rfl | rfl <;> exact hunresolved
    · exact faults_plainMember h hdot hname
termination_by 32 * ts.length

theorem faults_arguments {ts : Tokens} (h : ts <:+ whole) :
    (s.arguments ts).FailsIn (Fault.PointsInto s whole) := by
  rw [arguments]
  split
  · trivial
  · exact faults_argumentList h
termination_by 32 * ts.length + 25

theorem faults_argumentList {ts : Tokens} (h : ts <:+ whole) :
    (s.argumentList ts).FailsIn (Fault.PointsInto s whole) := by
  rw [argumentList]
  refine (faults_demand h (faults_expression h)).andThen fun arg rest hlt harg => ?_
  obtain ⟨d, hd⟩ := derives_expression (yields_demand.1 harg).1
  have hrest := hd.isSuffix.trans h
  split
  · rename_i more hm hcomma
    have hmore : more <:+ whole := (accept?_eq_some_iff.1 hcomma).isSuffix.trans hrest
    exact failsIn_under.2 (failsIn_under.2 (failsIn_map.2 (faults_argumentList hmore)))
  · exact failsIn_under.2 (failsIn_map.2 (faults_token hrest))
termination_by 32 * ts.length + 24

end

end Session

/-! ## Positions of errors -/

namespace Session

variable {s : Session σ}

end Session

end HostExpr
