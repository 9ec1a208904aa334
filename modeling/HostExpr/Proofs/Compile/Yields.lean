-- SUMMARY: Successful outcomes of reading tokens, and how they are put together.
import HostExpr.Compile.Resolution

/-!
# Successful outcomes

`Yields` keeps what a theorem about accepted texts needs from an outcome: the result and what is left.
Each way of combining outcomes has an equation that says when the combination yields something, so no
later proof opens an outcome.
-/

namespace HostExpr

/-! ## The first token -/

namespace Tokens

/-- The tokens are the given one and the rest after it. -/
def Begins (ts : Tokens) (token : Token) (rest : Tokens) : Prop :=
  ∃ text, ts = ⟨token, text⟩ :: rest

namespace Begins

variable {ts rest : Tokens} {token : Token}

theorem cons (l : Lexeme) (rest : Tokens) : Begins (l :: rest) l.token rest := ⟨l.text, rfl⟩

theorem kind_eq (h : ts.Begins token rest) : ts.kind = token.kind := by
  obtain ⟨text, rfl⟩ := h
  rfl

/-- Tokens that begin with a symbol begin with no other one. -/
theorem kind_ne {symbol other : Symbol} (h : ts.Begins (.symbol symbol) rest) (hne : symbol ≠ other) :
    ts.kind ≠ .symbol other := by
  intro hkind
  cases h.kind_eq.symm.trans hkind
  exact hne rfl

theorem length_lt (h : ts.Begins token rest) : rest.length < ts.length := by
  obtain ⟨text, rfl⟩ := h
  exact Nat.lt_succ_self _

theorem isSuffix (h : ts.Begins token rest) : rest <:+ ts := by
  obtain ⟨text, rfl⟩ := h
  exact List.suffix_cons _ _

/-- Tokens begin in one way. -/
theorem unique (h : ts.Begins token rest) {token' : Token} {rest' : Tokens}
    (h' : ts.Begins token' rest') : token = token' ∧ rest = rest' := by
  obtain ⟨text, rfl⟩ := h
  obtain ⟨text', heq⟩ := h'
  cases heq
  exact ⟨rfl, rfl⟩

theorem unique_name {name name' : String} {rest' : Tokens} (h : ts.Begins (.identifier name) rest)
    (h' : ts.Begins (.identifier name') rest') : name = name' ∧ rest = rest' := by
  obtain ⟨htoken, hrest⟩ := h.unique h'
  exact ⟨Token.identifier.inj htoken, hrest⟩

end Begins

theorem kind_eq_symbol_iff {t : Token} {symbol : Symbol} :
    t.kind = .symbol symbol ↔ t = .symbol symbol := by
  cases t <;> simp [Token.kind]

theorem accept?_eq_some_iff {ts : Tokens} {symbol : Symbol} {rest : ts.Shorter} :
    ts.accept? (.symbol symbol) = some rest ↔ ts.Begins (.symbol symbol) rest := by
  obtain ⟨rest, hrest⟩ := rest
  cases ts with
  | nil => simp [accept?, Begins]
  | cons l tail =>
    obtain ⟨token, text⟩ := l
    simp only [accept?, Begins, kind_eq_symbol_iff]
    split <;> simp_all

theorem accept?_eq_none_iff {ts : Tokens} {symbol : Symbol} :
    ts.accept? (.symbol symbol) = none ↔ ts.kind ≠ .symbol symbol := by
  cases ts with
  | nil => simp [accept?, kind]
  | cons l tail => simp [accept?, kind]

/-- What is accepted at the front of tokens that begin with a symbol. -/
theorem Begins.accept? {ts rest : Tokens} {symbol : Symbol} (h : ts.Begins (.symbol symbol) rest) :
    ts.accept? (.symbol symbol) = some ⟨rest, h.length_lt⟩ :=
  accept?_eq_some_iff.2 h

/-- Another symbol is not accepted there. -/
theorem Begins.accept?_eq_none {ts rest : Tokens} {symbol other : Symbol}
    (h : ts.Begins (.symbol symbol) rest) (hne : symbol ≠ other) :
    ts.accept? (.symbol other) = none :=
  accept?_eq_none_iff.2 (h.kind_ne hne)

end Tokens

/-! ## Outcomes -/

namespace Parsed

variable {α β σ : Type} {n m : Nat} {a : α} {b : β} {ts rest : Tokens}

/-- The outcome is a success with the given result, after which `rest` is left. -/
def Yields (p : Parsed α n) (a : α) (rest : Tokens) : Prop := ∃ log h, p = .done log a rest h

theorem Yields.length_lt {p : Parsed α n} (h : p.Yields a rest) : rest.length < n := by
  obtain ⟨_, hlt, _⟩ := h
  exact hlt

@[simp] theorem yields_done {log : List Record} {a' : α} {rest' : Tokens} {h : rest'.length < n} :
    (done log a' rest' h).Yields a rest ↔ a' = a ∧ rest' = rest := by
  constructor
  · rintro ⟨_, _, heq⟩
    cases heq
    exact ⟨rfl, rfl⟩
  · rintro ⟨rfl, rfl⟩
    exact ⟨_, _, rfl⟩

@[simp] theorem yields_failed {log : List Record} {fault : Fault} :
    ¬ (failed log fault : Parsed α n).Yields a rest := by
  rintro ⟨_, _, heq⟩
  cases heq

instance (p : Parsed α n) : Decidable (∃ a rest, p.Yields a rest) :=
  match p with
  | done _ a rest h => isTrue ⟨a, rest, _, h, rfl⟩
  | failed _ _ => isFalse fun ⟨_, _, h⟩ => yields_failed h

@[simp] theorem yields_after {log : List Record} {p : Parsed α n} :
    (p.after log).Yields a rest ↔ p.Yields a rest := by
  cases p <;> simp [after]

@[simp] theorem yields_andThen {p : Parsed α n}
    {next : (a : α) → (rest : Tokens) → rest.length < n → Parsed β n} :
    (p.andThen next).Yields b rest ↔
      ∃ a middle, ∃ h : middle.length < n, p.Yields a middle ∧ (next a middle h).Yields b rest := by
  cases p with
  | done log a middle h =>
    simp only [andThen, yields_after, yields_done]
    constructor
    · intro hnext
      exact ⟨a, middle, h, ⟨rfl, rfl⟩, hnext⟩
    · rintro ⟨_, _, _, ⟨rfl, rfl⟩, hnext⟩
      exact hnext
  | failed log fault => simp [andThen]

@[simp] theorem yields_map {f : α → β} {p : Parsed α n} :
    (p.map f).Yields b rest ↔ ∃ a, p.Yields a rest ∧ f a = b := by
  cases p with
  | done log a rest' h =>
    simp only [map, yields_done]
    constructor
    · rintro ⟨hb, hrest⟩
      exact ⟨a, ⟨rfl, hrest⟩, hb⟩
    · rintro ⟨_, ⟨rfl, hrest⟩, hb⟩
      exact ⟨hb, hrest⟩
  | failed log fault => simp [map]

@[simp] theorem yields_within {h : m ≤ n} {p : Parsed α m} :
    (p.within h).Yields a rest ↔ p.Yields a rest := by
  cases p <;> simp [within]

@[simp] theorem yields_under {h : m < n} {p : Parsed α m} :
    (p.under h).Yields a rest ↔ p.Yields a rest := yields_within

@[simp] theorem yields_loose {p : Parsed α n} : p.loose.Yields a rest ↔ p.Yields a rest :=
  yields_within

@[simp] theorem yields_noting {message : α → String} {p : Parsed α n} :
    (p.noting message).Yields a rest ↔ p.Yields a rest := by
  cases p <;> simp [noting]

@[simp] theorem yields_yield {a' : α} {rest' : Tokens} {h : rest'.length < n} :
    (yield a' rest' h).Yields a rest ↔ a' = a ∧ rest' = rest := yields_done

@[simp] theorem yields_nothing {a' : α} : (nothing a' ts).Yields a rest ↔ a' = a ∧ ts = rest :=
  yields_done

@[simp] theorem yields_fail {cause : Cause} {place : Tokens} :
    ¬ (fail cause place : Parsed α n).Yields a rest := yields_failed

@[simp] theorem yields_require {a? : Option α} {cause : Cause} {place rest' : Tokens}
    {h : rest'.length < n} :
    (require a? cause place rest' h).Yields a rest ↔ a? = some a ∧ rest' = rest := by
  cases a? <;> simp [require]

@[simp] theorem yields_unexpected {expected : String} :
    ¬ (unexpected expected ts : Parsed α n).Yields a rest := by
  cases ts <;> simp [unexpected]

/-- Two outcomes in two parts are equal if the first parts are, and the second ones wherever the first
part leads. -/
theorem andThen_congr {p p' : Parsed α n}
    {next next' : (a : α) → (rest : Tokens) → rest.length < n → Parsed β n} (hp : p = p')
    (hnext : ∀ a rest h, p.Yields a rest → next a rest h = next' a rest h) :
    p.andThen next = p'.andThen next' := by
  subst hp
  cases p with
  | done log a rest h => exact congrArg (Parsed.after log) (hnext a rest h ⟨log, h, rfl⟩)
  | failed log fault => rfl

/-! ## Reading one token -/

theorem yields_token {expected : String} {f : Token → Option α} :
    (token expected f ts).Yields a rest ↔ ∃ t, ts.Begins t rest ∧ f t = some a := by
  cases ts with
  | nil => simp [token, Tokens.Begins]
  | cons l tail =>
    constructor
    · intro h
      simp only [token] at h
      split at h
      · obtain ⟨rfl, rfl⟩ := yields_yield.1 h
        exact ⟨l.token, .cons l tail, ‹_›⟩
      · exact absurd h yields_unexpected
    · rintro ⟨t, hbegins, hf⟩
      obtain ⟨rfl, rfl⟩ := (Tokens.Begins.cons l tail).unique hbegins
      simp [token, hf]

@[simp] theorem yields_expect {symbol : Symbol} {u : Unit} :
    (expect (.symbol symbol) ts).Yields u rest ↔ ts.Begins (.symbol symbol) rest := by
  simp [expect, yields_token, Tokens.kind_eq_symbol_iff]

@[simp] theorem yields_identifier {name : String} :
    (identifier ts).Yields name rest ↔ ts.Begins (.identifier name) rest := by
  have hname : ∀ t : Token, t.identifier? = some name ↔ t = .identifier name := by
    intro t
    cases t <;> simp [Token.identifier?]
  simp [identifier, yields_token, hname]

@[simp] theorem yields_literal {e : Expr σ} :
    (literal ts).Yields e rest ↔ ∃ t, ts.Begins t rest ∧ Expr.ofLiteral? t = some e := yields_token

/-- A literal is no name and no symbol. -/
theorem literal_kind_ne {t : Token} {e : Expr σ} (h : Expr.ofLiteral? t = some e) :
    t.kind ≠ .identifier ∧ ∀ symbol, t.kind ≠ .symbol symbol := by
  cases t with
  | number | string | truth => exact ⟨nofun, nofun⟩
  | identifier | symbol => cases h

@[simp] theorem yields_choose {choice : Logged (Except Cause α)} {place rest' : Tokens}
    {h : rest'.length < n} :
    (choose choice place rest' h).Yields a rest ↔ choice.value = .ok a ∧ rest' = rest := by
  unfold choose
  split <;> simp_all

@[simp] theorem yields_demand {role : Role} {place : Tokens} {p : Parsed (Expr σ) n} {e : Expr σ} :
    (p.demand role place).Yields e rest ↔ p.Yields e rest ∧ e.plays role := by
  simp only [demand, yields_andThen]
  constructor
  · rintro ⟨e', middle, hlt, hp, hnext⟩
    split at hnext
    · obtain ⟨rfl, rfl⟩ := yields_yield.1 hnext
      exact ⟨hp, ‹_›⟩
    · exact absurd hnext yields_fail
  · rintro ⟨hp, hrole⟩
    exact ⟨e, rest, hp.length_lt, hp, by simp [hrole]⟩

end Parsed

end HostExpr
