-- SUMMARY: The symbols of operators, and how much each goes on with.
import HostExpr.Compile.Precedence

/-!
# Symbols of operators

An operator is known by its symbol, and its symbol by the level of the operator.
-/

namespace HostExpr

/-! ## Operators and their symbols -/

/-- The operator between operands that is written with a symbol. -/
def BinaryOp.ofSymbol? : Symbol → Option BinaryOp
  | .orOr => some (.logical .or)
  | .andAnd => some (.logical .and)
  | .bang => some (.logical .not)
  | .bar => some (.arithmetic .bitOr)
  | .caret => some (.arithmetic .bitXor)
  | .ampersand => some (.arithmetic .bitAnd)
  | .tilde => some (.arithmetic .complement)
  | .shiftLeft => some (.arithmetic .shiftLeft)
  | .shiftRight => some (.arithmetic .shiftRight)
  | .plus => some (.arithmetic .add)
  | .minus => some (.arithmetic .sub)
  | .star => some (.arithmetic .mul)
  | .slash => some (.arithmetic .div)
  | .percent => some (.arithmetic .mod)
  | .equalEqual => some (.comparison .equal)
  | .notEqual => some (.comparison .notEqual)
  | .less => some (.comparison .less)
  | .lessEqual => some (.comparison .lessEqual)
  | .greaterEqual => some (.comparison .greaterEqual)
  | .greater => some (.comparison .greater)
  | _ => none

theorem BinaryOp.ofSymbol?_symbol (op : BinaryOp) : ofSymbol? op.symbol = some op := by
  rcases op with op | op | op <;> cases op <;> rfl

theorem BinaryOp.symbol_injective {op op' : BinaryOp} (h : op.symbol = op'.symbol) : op = op' :=
  Option.some.inj (by rw [← ofSymbol?_symbol, ← ofSymbol?_symbol, h])

theorem UnaryOp.symbol_injective {op op' : UnaryOp} (h : op.symbol = op'.symbol) : op = op' := by
  cases op with
  | not =>
    cases op' with
    | not => rfl
    | arithmetic op' => cases op' <;> cases h
  | arithmetic op =>
    cases op' with
    | not => cases op <;> cases h
    | arithmetic op' =>
      have hop : BinaryOp.arithmetic op = .arithmetic op' := BinaryOp.symbol_injective h
      cases hop
      rfl

theorem UnaryOp.symbol_ne_leftParen (op : UnaryOp) : op.symbol ≠ .leftParen := by
  cases op with
  | not => nofun
  | arithmetic op => cases op <;> nofun

theorem BinaryOp.symbol_ne_question (op : BinaryOp) : op.symbol ≠ .question := by
  intro h
  have hop := ofSymbol?_symbol op
  rw [h] at hop
  cases hop

/-! ## Symbols after an operand -/

/-- The width of a symbol that can come after an operand: it goes on with the phrases that are wider. A
parenthesis goes on with a name, a bracket or point with any operand, an operator with the operations of
its level and of the looser ones, and a question mark with a whole expression. -/
def Symbol.width? : Symbol → Option Nat
  | leftParen => some 0
  | leftBracket | dot => some 1
  | star | slash | percent => some 3
  | plus | minus => some 4
  | shiftLeft | shiftRight => some 5
  | less | lessEqual | greaterEqual | greater => some 6
  | equalEqual | notEqual => some 7
  | ampersand => some 8
  | caret => some 9
  | bar => some 10
  | andAnd => some 11
  | orOr => some 12
  | question => some 13
  | rightParen | rightBracket | comma | colon | tilde | bang => none

theorem Symbol.width?_operator {p : Precedence} {op : BinaryOp} (h : op ∈ p.operators) :
    op.symbol.width? = some (p.looseness + 3) := by
  cases p <;> simp only [Precedence.operators, List.mem_cons, List.not_mem_nil, or_false] at h
  case equality | shift | sum => rcases h with rfl | rfl <;> rfl
  case product => rcases h with rfl | rfl | rfl <;> rfl
  case relation => rcases h with rfl | rfl | rfl | rfl <;> rfl
  all_goals cases h; rfl

end HostExpr
