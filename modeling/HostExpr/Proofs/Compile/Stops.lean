-- SUMMARY: Where the reading of an expression stops, and which token can come next.
import HostExpr.Proofs.Compile.Soundness
import HostExpr.Proofs.Compile.Unambiguous

/-!
# Where reading stops

Reading goes on as long as the next token allows it. So a symbol that could go on with what was read does
not come next, with one exception: a level of comparisons takes a single operation, and after that
operation another of its operators is left alone (`Expr.StopsAt`). The exception reaches outward through
whatever ends in the comparison.

What is read before a token that goes on with nothing can be read as any wider phrase.
-/

namespace HostExpr

variable {σ : Type} {s : Session σ}

/-! ## Reading is a function -/

theorem Parsed.Yields.unique {α : Type} {n : Nat} {p : Parsed α n} {a a' : α} {rest rest' : Tokens}
    (h : p.Yields a rest) (h' : p.Yields a' rest') : a' = a ∧ rest' = rest := by
  obtain ⟨log, hlt, heq⟩ := h
  obtain ⟨log', hlt', heq'⟩ := h'
  cases heq.symm.trans heq'
  exact ⟨rfl, rfl⟩

/-! ## Symbols by their width -/

theorem Symbol.suffix_of_width? {symbol : Symbol} {width : Nat} (h : symbol.width? = some width)
    (hpos : 0 < width) (hlt : width < 3) : symbol = .leftBracket ∨ symbol = .dot := by
  cases symbol <;> cases h <;> first | exact .inl rfl | exact .inr rfl | omega

/-- A symbol of the width of a level is the symbol of one of its operators. -/
theorem Symbol.operator_of_width? {symbol : Symbol} {p : Precedence}
    (h : symbol.width? = some (p.looseness + 3)) : ∃ op ∈ p.operators, op.symbol = symbol := by
  revert h
  cases p <;> cases symbol <;> decide

/-! ## Wider phrases -/

namespace Precedence

theorem looseness_injective {p q : Precedence} (h : p.looseness = q.looseness) : p = q := by
  revert h
  cases p <;> cases q <;> decide

/-- The next tighter level is the next one by looseness. -/
theorem looseness_of_tighter? {p q : Precedence} (h : p.tighter? = some q) :
    p.looseness = q.looseness + 1 := by
  cases p <;> cases h <;> rfl

theorem looseness_of_tightest {p : Precedence} (h : p.tighter? = none) : p.looseness = 0 := by
  cases p <;> cases h
  rfl

end Precedence

namespace Session

open Tokens

variable {ts rest : Tokens} {e : Expr σ}

/-- An operand is read as the operations of its level, if none follows. -/
theorem yields_level_of_operand {p : Precedence} (h : (s.operand p ts).Yields e rest)
    (hend : (.level p : Phrase σ).EndsBefore rest) : (s.level p ts).Yields e rest := by
  refine yields_level.2 ⟨e, rest, h, yields_chain.2 (.inl ⟨fun op hop => ?_, rfl, rfl⟩)⟩
  exact hend.kind_ne (Symbol.width?_operator hop) (Nat.lt_succ_self _)

/-- What is read at a level is read at every looser one, if no operation of that one follows. -/
theorem yields_level_of_le {p q : Precedence} (h : (s.level p ts).Yields e rest)
    (hle : p.looseness ≤ q.looseness) (hend : (.level q : Phrase σ).EndsBefore rest) :
    (s.level q ts).Yields e rest := by
  by_cases heq : p.looseness = q.looseness
  · cases Precedence.looseness_injective heq
    exact h
  · cases hq : q.tighter? with
    | none =>
      have := Precedence.looseness_of_tightest hq
      omega
    | some q' =>
      have hlooseness := Precedence.looseness_of_tighter? hq
      have htighter := Precedence.looseness_tighter? hq
      have hwidth : (.level q' : Phrase σ).width ≤ (.level q : Phrase σ).width :=
        Nat.add_le_add_right (Nat.le_of_lt htighter) 4
      have hlevel := yields_level_of_le h (by omega) (hend.mono hwidth)
      exact yields_level_of_operand (yields_operand.2 (.inl ⟨q', hq, hlevel⟩)) hend
termination_by q.looseness

/-- What is read with at most one sign is read as an operand, if no tighter operation follows. -/
theorem yields_operand_of_unary {p : Precedence} (h : (s.unary ts).Yields e rest)
    (hend : (.operand p : Phrase σ).EndsBefore rest) : (s.operand p ts).Yields e rest := by
  cases hp : p.tighter? with
  | none => exact yields_operand.2 (.inr ⟨hp, h⟩)
  | some q =>
    have hlooseness := Precedence.looseness_of_tighter? hp
    have hproduct : (s.operand .product ts).Yields e rest := yields_operand.2 (.inr ⟨rfl, h⟩)
    have hwidth : ∀ r : Precedence, r.looseness + 1 ≤ p.looseness →
        (.level r : Phrase σ).width ≤ (.operand p : Phrase σ).width :=
      fun r hr => show r.looseness + 4 ≤ p.looseness + 3 by omega
    have hzero : Precedence.product.looseness = 0 := rfl
    have hlevel := yields_level_of_operand hproduct (hend.mono (hwidth .product (by omega)))
    have hq := yields_level_of_le hlevel (by omega) (hend.mono (hwidth q (by omega)))
    exact yields_operand.2 (.inl ⟨q, hp, hq⟩)

theorem yields_expression_of_level {p : Precedence} (h : (s.level p ts).Yields e rest)
    (hend : (.expression : Phrase σ).EndsBefore rest) : (s.expression ts).Yields e rest := by
  have hor := yields_level_of_le (q := .or) h p.looseness_le (hend.mono (Nat.le_succ 13))
  exact yields_expression.2 ⟨e, rest, hor, .inl ⟨hend.kind_ne rfl (Nat.le_refl _), rfl, rfl⟩⟩

theorem yields_expression_of_unary (h : (s.unary ts).Yields e rest)
    (hend : (.expression : Phrase σ).EndsBefore rest) : (s.expression ts).Yields e rest := by
  have hor := yields_operand_of_unary (p := .or) h (hend.mono (Nat.le_add_right 12 2))
  exact yields_expression_of_level (yields_level_of_operand hor (hend.mono (Nat.le_succ 13))) hend

end Session

/-! ## The symbol after an expression -/

/-- The expression ends in an operation of the level: it is one, or it ends in an expression that does. -/
def Expr.EndsIn (p : Precedence) : Expr σ → Prop
  | comparison op _ right => .comparison op ∈ p.operators ∨ right.EndsIn p
  | logical _ _ right | arithmetic _ _ right _ | conditional _ _ right => right.EndsIn p
  | logicalUnary _ operand | arithmeticUnary _ operand _ | convert _ operand => operand.EndsIn p
  | _ => False

/-- A symbol of a smaller width comes next only if it is an operator of a level that takes one operation,
and the expression ends in an operation of that level. -/
def Expr.StopsAt (width : Nat) (e : Expr σ) (ts : Tokens) : Prop :=
  ∀ symbol w, ts.kind = .symbol symbol → symbol.width? = some w → 0 < w → w < width →
    ∃ p op, op ∈ p.operators ∧ op.symbol = symbol ∧ p.chains = false ∧ e.EndsIn p

namespace Expr

variable {width : Nat} {ts : Tokens} {e : Expr σ}

theorem EndsIn.combine {p : Precedence} (op : BinaryOp) (left : Expr σ) (h : e.EndsIn p) :
    (op.combine left e).EndsIn p := by
  cases op with
  | logical op | arithmetic op => exact h
  | comparison op => exact .inr h

theorem EndsIn.apply {p : Precedence} (op : UnaryOp) (h : e.EndsIn p) : (op.apply e).EndsIn p := by
  cases op <;> exact h

/-- An operation of a level that takes one operation ends in itself. -/
theorem endsIn_combine_self {p : Precedence} {op : BinaryOp} (hop : op ∈ p.operators)
    (hchains : p.chains = false) (left right : Expr σ) : (op.combine left right).EndsIn p := by
  cases op with
  | comparison op => exact .inl hop
  | logical op | arithmetic op => cases p <;> cases hchains <;> simp [Precedence.operators] at hop

namespace StopsAt

theorem mono (h : e.StopsAt width ts) {e' : Expr σ} (he : ∀ p, e.EndsIn p → e'.EndsIn p) :
    e'.StopsAt width ts := by
  intro symbol w hkind hwidth hpos hlt
  obtain ⟨p, op, hop, hsymbol, hchains, hends⟩ := h symbol w hkind hwidth hpos hlt
  exact ⟨p, op, hop, hsymbol, hchains, he p hends⟩

theorem narrow (h : e.StopsAt width ts) {width' : Nat} (hle : width' ≤ width) :
    e.StopsAt width' ts :=
  fun symbol w hkind hwidth hpos hlt => h symbol w hkind hwidth hpos (Nat.lt_of_lt_of_le hlt hle)

/-- One width further, the symbols of the next width are to be looked at. -/
theorem succ (h : e.StopsAt width ts)
    (hnext : ∀ symbol, ts.kind = .symbol symbol → symbol.width? = some width →
      ∃ p op, op ∈ p.operators ∧ op.symbol = symbol ∧ p.chains = false ∧ e.EndsIn p) :
    e.StopsAt (width + 1) ts := by
  intro symbol w hkind hwidth hpos hlt
  by_cases heq : w = width
  · exact hnext symbol hkind (heq ▸ hwidth)
  · exact h symbol w hkind hwidth hpos (by omega)

/-- A symbol that goes on with an expression comes next only if it is one of a comparison. -/
theorem kind_ne (h : e.StopsAt width ts) {symbol : Symbol} {w : Nat}
    (hwidth : symbol.width? = some w) (hpos : 0 < w) (hlt : w < width)
    (hchains : ∀ (p : Precedence) (op : BinaryOp), op ∈ p.operators → op.symbol = symbol → p.chains) :
    ts.kind ≠ .symbol symbol := by
  intro hkind
  obtain ⟨p, op, hop, hsymbol, hfalse, -⟩ := h symbol w hkind hwidth hpos hlt
  cases hfalse.symm.trans (hchains p op hop hsymbol)

end StopsAt

end Expr

/-! ## Reading goes on while it can -/

namespace Session

open Tokens

/-- No suffix follows the suffixes of an expression. -/
theorem stops_suffixes {ts rest : Tokens} {base e : Expr σ}
    (h : (s.suffixes base ts).Yields e rest) : e.StopsAt 3 rest := by
  rcases yields_suffixes.1 h with ⟨hbracket, hdot, rfl, rfl⟩ |
    ⟨inside, type, index, close, after, hopen, -, hindex, -, hclose, h⟩ |
    ⟨name, access, after, hpoint, -, -, haccess, h⟩
  · intro symbol w hkind hwidth hpos hlt
    rcases Symbol.suffix_of_width? hwidth hpos hlt with rfl | rfl
    · exact absurd hkind hbracket
    · exact absurd hkind hdot
  · have := hopen.length_lt
    have := hindex.length_lt
    have := hclose.length_lt
    exact stops_suffixes h
  · have := hpoint.length_lt
    have := haccess.length_lt
    exact stops_suffixes h
termination_by ts.length

mutual

theorem stops_expression {ts rest : Tokens} {e : Expr σ} (h : (s.expression ts).Yields e rest) :
    e.StopsAt 14 rest := by
  obtain ⟨condition, middle, hcondition, h⟩ := yields_expression.1 h
  rcases h with ⟨hquestion, rfl, rfl⟩ |
    ⟨yes, left, colon, no, right, hyes, -, hleft, -, hcolon, hright, -, rfl⟩
  · refine (stops_level hcondition).succ fun symbol hkind hwidth => ?_
    cases symbol <;> cases hwidth
    exact absurd hkind hquestion
  · have := hcondition.length_lt
    have := hyes.length_lt
    have := hleft.length_lt
    have := hcolon.length_lt
    exact (stops_expression hright).mono fun _ => id
termination_by 32 * ts.length + 23
decreasing_by
  all_goals have := Precedence.looseness_le .or
  all_goals omega

theorem stops_level {p : Precedence} {ts rest : Tokens} {e : Expr σ}
    (h : (s.level p ts).Yields e rest) : e.StopsAt (p.looseness + 4) rest := by
  obtain ⟨left, middle, hleft, hchain⟩ := yields_level.1 h
  have := hleft.length_lt
  exact stops_chain (stops_operand hleft) hchain
termination_by 32 * ts.length + 2 * p.looseness + 4

theorem stops_operand {p : Precedence} {ts rest : Tokens} {e : Expr σ}
    (h : (s.operand p ts).Yields e rest) : e.StopsAt (p.looseness + 3) rest := by
  rcases yields_operand.1 h with ⟨q, hq, h⟩ | ⟨hp, h⟩
  · have := Precedence.looseness_tighter? hq
    rw [Precedence.looseness_of_tighter? hq]
    exact stops_level h
  · rw [Precedence.looseness_of_tightest hp]
    exact stops_unary h
termination_by 32 * ts.length + 2 * p.looseness + 3

/-- An operator of the level comes after its operations only if the level takes a single one. -/
theorem stops_chain {p : Precedence} {start ts rest : Tokens} {left e : Expr σ}
    (hleft : left.StopsAt (p.looseness + 3) ts) (h : (s.chain p start left ts).Yields e rest) :
    e.StopsAt (p.looseness + 4) rest := by
  rcases yields_chain.1 h with ⟨hnone, rfl, rfl⟩ |
    ⟨op, hop, next, right, after, hbegins, -, hright, -, h⟩
  · refine hleft.succ fun symbol hkind hwidth => ?_
    obtain ⟨op, hop, rfl⟩ := Symbol.operator_of_width? hwidth
    exact absurd hkind (hnone op hop)
  · have := hbegins.length_lt
    have := hright.length_lt
    have := Precedence.looseness_le p
    have hcombine := (stops_operand hright).mono fun _ => Expr.EndsIn.combine op left
    split at h
    · exact stops_chain hcombine h
    · obtain ⟨rfl, rfl⟩ := h
      refine hcombine.succ fun symbol _ hwidth => ?_
      obtain ⟨op', hop', hsymbol⟩ := Symbol.operator_of_width? hwidth
      have hchains := eq_false_of_ne_true ‹_›
      exact ⟨p, op', hop', hsymbol, hchains, Expr.endsIn_combine_self hop hchains left right⟩
termination_by 32 * ts.length

theorem stops_unary {ts rest : Tokens} {e : Expr σ} (h : (s.unary ts).Yields e rest) :
    e.StopsAt 3 rest := by
  rcases yields_unary.1 h with ⟨-, h⟩ | ⟨op, hop, next, operand, hbegins, hoperand, -, rfl⟩
  · exact stops_primary h
  · have := hbegins.length_lt
    exact (stops_primary hoperand).mono fun _ => Expr.EndsIn.apply op
termination_by 32 * ts.length + 2

theorem stops_primary {ts rest : Tokens} {e : Expr σ} (h : (s.primary ts).Yields e rest) :
    e.StopsAt 3 rest := by
  rcases yields_primary.1 h with ⟨inside, hopen, h⟩ | ⟨base, middle, -, h⟩
  · have := hopen.length_lt
    obtain ⟨inner, close, after, hinner, hclose, h⟩ := yields_group.1 h
    have := hinner.length_lt
    have := hclose.length_lt
    rcases h with ⟨type, operand, -, hoperand, -, rfl⟩ | ⟨-, h⟩
    · exact ((stops_expression hoperand).mono fun _ => id).narrow (by decide)
    · exact stops_suffixes h
  · exact stops_suffixes h
termination_by 32 * ts.length + 1

end

end Session

end HostExpr
