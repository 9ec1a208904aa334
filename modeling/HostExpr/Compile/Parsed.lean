-- SUMMARY: The outcome of reading something off the front of the tokens.
import HostExpr.CompileError
import HostExpr.Record

/-!
# Outcomes of reading tokens

Reading looks at the tokens from the front and either yields a result and what is left, or ends with
a fault. `Parsed α n` is the outcome of reading an `α` when fewer than `n` tokens are left after it:
with `n` the number of tokens at hand, something was consumed, and with one more, perhaps nothing.
So the type says that reading makes progress, and a reader that calls itself on what is left ends.

Both outcomes keep the records of what was decided on the way.
-/

namespace HostExpr

/-- The outcome of reading an `α`, after which fewer than `n` tokens are left. -/
inductive Parsed (α : Type) (n : Nat) where
  | done (log : List Record) (result : α) (rest : Tokens) (shorter : rest.length < n)
  | failed (log : List Record) (fault : Fault)

namespace Parsed

variable {α β : Type} {m n : Nat}

/-! ## Combining outcomes -/

/-- The outcome after some earlier records. -/
def after (log : List Record) : Parsed α n → Parsed α n
  | done log' a rest h => done (log ++ log') a rest h
  | failed log' fault => failed (log ++ log') fault

/-- Goes on with the result and with what is left. -/
def andThen (p : Parsed α n) (next : (a : α) → (rest : Tokens) → rest.length < n → Parsed β n) :
    Parsed β n :=
  match p with
  | done log a rest h => (next a rest h).after log
  | failed log fault => failed log fault

/-- The outcome with a function applied to the result. -/
def map (f : α → β) : Parsed α n → Parsed β n
  | done log a rest h => done log (f a) rest h
  | failed log fault => failed log fault

/-- The outcome under a weaker bound. -/
def within (h : m ≤ n) : Parsed α m → Parsed α n
  | done log a rest hm => done log a rest (Nat.lt_of_lt_of_le hm h)
  | failed log fault => failed log fault

/-- The outcome of reading what was left after something else. -/
def under (h : m < n) (p : Parsed α m) : Parsed α n := p.within (Nat.le_of_lt h)

/-- The outcome where nothing needs to be read. -/
def loose (p : Parsed α n) : Parsed α (n + 1) := p.within (Nat.le_succ n)

/-- The outcome, with a record about the result at the end. -/
def noting (message : α → String) : Parsed α n → Parsed α n
  | done log a rest h => done (log ++ [⟨.trace, message a⟩]) a rest h
  | failed log fault => failed log fault

/-- A result for which nothing more is read. -/
def yield (a : α) (rest : Tokens) (h : rest.length < n) : Parsed α n := done [] a rest h

/-- A result for which nothing is read at all. -/
def nothing (a : α) (ts : Tokens) : Parsed α (ts.length + 1) := yield a ts (Nat.lt_succ_self _)

/-- A fault at a place. -/
def fail (cause : Cause) (place : Tokens) : Parsed α n := failed [] ⟨cause, place⟩

/-- A result that may not be there; without it there is a fault at a place. -/
def require (a : Option α) (cause : Cause) (place rest : Tokens) (h : rest.length < n) :
    Parsed α n :=
  match a with
  | some a => yield a rest h
  | none => fail cause place

/-! ## Reading one token -/

/-- The fault for finding the first token where something else has to stand. -/
def unexpected (expected : String) : Tokens → Parsed α n
  | [] => fail (.unexpectedEnd expected) []
  | l :: rest => fail (.unexpectedToken expected l.found) (l :: rest)

/-- Reads a token that `f` finds an `α` in. -/
def token (expected : String) (f : Token → Option α) (ts : Tokens) : Parsed α ts.length :=
  match ts with
  | [] => unexpected expected []
  | l :: rest =>
    match f l.token with
    | some a => yield a rest (by simp)
    | none => unexpected expected (l :: rest)

/-- Reads a token of a kind. -/
def expect (kind : TokenKind) (ts : Tokens) : Parsed Unit ts.length :=
  token kind.text (fun t => if t.kind = kind then some () else none) ts

/-- Reads an identifier. -/
def identifier (ts : Tokens) : Parsed String ts.length := token "identifier" Token.identifier? ts

/-- Reads a numeric literal. -/
def number (ts : Tokens) : Parsed (Float × NumberKind) ts.length :=
  token "number" Token.number? ts

/-- Reads a string literal. -/
def string (ts : Tokens) : Parsed String ts.length := token "string" Token.string? ts

end Parsed

namespace Tokens

/-- What is left of some tokens after at least one of them. -/
abbrev Shorter (ts : Tokens) := { rest : Tokens // rest.length < ts.length }

/-- What is left after a first token of a kind, if the first token has that kind. -/
def accept? (kind : TokenKind) : (ts : Tokens) → Option ts.Shorter
  | [] => none
  | l :: rest => if l.token.kind = kind then some ⟨rest, by simp⟩ else none

end Tokens

end HostExpr
