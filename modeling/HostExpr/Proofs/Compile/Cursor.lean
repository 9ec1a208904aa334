-- SUMMARY: Calls on the cursor of a text take its tokens one after another, from the first one on.
import Mathlib.Data.List.Forall2
import HostExpr.Proofs.Compile.Respacing

/-!
# The cursor of a text

Whoever reads tokens from the front sees one token ahead, and may take it. A call takes the first token and
replies with what it found there, or it fails, or only looks, and then the cursor stays where it is
(`stays_or_takes`). So the calls that succeed take the first tokens of a text, one each (`exists_taken`), and
the cursor is at the token whose number is how many of them there were.

A cursor is what is left to read. Its position in the text grows with the number of its token
(`offset_le_offset`), as each lexeme ends before the next one starts.
-/

namespace HostExpr

/-! ## Calls and replies -/

/-- A call on a cursor. -/
inductive CursorCall where
  /-- Tells whether the first token is of a kind. -/
  | peek (kind : TokenKind)
  /-- Takes the first token if it is of a kind. -/
  | accept (kind : TokenKind)
  /-- Takes the first token, which has to be of a kind. -/
  | expect (kind : TokenKind)
  /-- Takes the first token, which has to be an identifier. -/
  | identifier
  /-- Takes the first token, which has to be a numeric literal. -/
  | number
  /-- Takes the first token, which has to be a string literal. -/
  | string
  deriving DecidableEq

/-- What a call replies. -/
inductive CursorReply where
  | peeked (holds : Bool)
  | accepted (holds : Bool)
  | expected
  | identifier (name : String)
  | number (value : Float) (kind : NumberKind)
  | string (text : String)
  | fault (f : Fault)
  deriving DecidableEq

/-- The reply is that of a call that has taken a token. -/
def CursorReply.isSuccess : CursorReply → Bool
  | peeked _ | accepted false | fault _ => false
  | accepted true | expected | identifier _ | number _ _ | string _ => true

/-- The reply for an outcome of reading, and what is left then: after a fault, what was left before. -/
def Parsed.reply {α : Type} {n : Nat} (p : Parsed α n) (ts : Tokens) (f : α → CursorReply) :
    CursorReply × Tokens :=
  match p with
  | done _ a rest _ => (f a, rest)
  | failed _ fault => (.fault fault, ts)

namespace CursorCall

/-- The reply to a call where some tokens are left, and what is left then. -/
def run (ts : Tokens) : CursorCall → CursorReply × Tokens
  | peek kind => (.peeked (ts.kind = kind), ts)
  | accept kind =>
    match ts.accept? kind with
    | some rest => (.accepted true, rest)
    | none => (.accepted false, ts)
  | expect kind => (Parsed.expect kind ts).reply ts fun _ => .expected
  | identifier => (Parsed.identifier ts).reply ts .identifier
  | number => (Parsed.number ts).reply ts fun (value, kind) => .number value kind
  | string => (Parsed.string ts).reply ts .string

/-- What is left after calls in turn. -/
def after (ts : Tokens) (calls : List CursorCall) : Tokens :=
  calls.foldl (fun ts call => (call.run ts).2) ts

/-- Calls in turn, with their replies. -/
def exchanges : Tokens → List CursorCall → List (CursorCall × CursorReply)
  | _, [] => []
  | ts, call :: calls => (call, (call.run ts).1) :: exchanges (call.run ts).2 calls

/-- Of calls in turn, those that succeed. -/
def successes (ts : Tokens) (calls : List CursorCall) : List (CursorCall × CursorReply) :=
  (exchanges ts calls).filter (·.2.isSuccess)

/-! ## One call -/

/-- A call that replies so has taken this token. -/
inductive Takes : CursorCall × CursorReply → Token → Prop
  | accept {t : Token} : Takes (.accept t.kind, .accepted true) t
  | expect {t : Token} : Takes (.expect t.kind, .expected) t
  | identifier {name : String} : Takes (.identifier, .identifier name) (.identifier name)
  | number {value : Float} {kind : NumberKind} :
      Takes (.number, .number value kind) (.number value kind)
  | string {text : String} : Takes (.string, .string text) (.string text)

variable {call : CursorCall} {reply : CursorReply} {l : Lexeme} {ts rest : Tokens}

theorem Takes.isSuccess {t : Token} (h : Takes (call, reply) t) : reply.isSuccess := by
  cases h <;> rfl

/-- What accepts or expects a kind takes tokens of that kind. -/
theorem Takes.kind_eq {t : Token} {kind : TokenKind} (h : Takes (call, reply) t)
    (hcall : call = .accept kind ∨ call = .expect kind) : t.kind = kind := by
  rcases hcall with rfl | rfl
  · cases h
    rfl
  · cases h
    rfl

/-- A call that takes the first token moves behind it. -/
theorem run_of_takes (h : Takes (call, reply) l.token) : call.run (l :: rest) = (reply, rest) := by
  obtain ⟨t, text⟩ := l
  cases h with
  | accept => simp only [run, Tokens.accept?, if_true]
  | expect => simp only [run, Parsed.expect, Parsed.token, if_true, Parsed.yield, Parsed.reply]
  | identifier | number | string => rfl

theorem run_peek_iff {kind : TokenKind} :
    (CursorCall.peek kind).run ts = (.peeked true, ts) ↔ ts.kind = kind := by
  rw [run, Prod.mk.injEq, CursorReply.peeked.injEq, decide_eq_true_iff, and_iff_left rfl]

/-- The call fails, and leaves the cursor where it is; a fault that it replies with is there. -/
structure Stays (call : CursorCall) (ts : Tokens) : Prop where
  rest_eq : (call.run ts).2 = ts
  isSuccess_eq : (call.run ts).1.isSuccess = false
  place_eq (f : Fault) : (call.run ts).1 = .fault f → f.place = ts

/-- A call that reads a token, and takes those that it finds something in, stays in front of any other. -/
theorem stays_of_token {α : Type} {expected : String} {f : Token → Option α} {g : α → CursorReply}
    (hrun : call.run ts = (Parsed.token expected f ts).reply ts g)
    (htakes : ∀ t a, f t = some a → Takes (call, g a) t)
    (h : ∀ l ∈ ts.head?, ∀ reply, ¬ Takes (call, reply) l.token) : call.Stays ts := by
  have hfault : ∃ cause, call.run ts = (.fault ⟨cause, ts⟩, ts) := by
    cases ts with
    | nil => exact ⟨_, hrun⟩
    | cons l rest =>
      have hnone : f l.token = none :=
        Option.eq_none_iff_forall_ne_some.2 fun a ha => h l rfl _ (htakes _ a ha)
      rw [hrun, Parsed.token, hnone]
      exact ⟨_, rfl⟩
  obtain ⟨cause, hfault⟩ := hfault
  refine ⟨congrArg Prod.snd hfault, ?_, ?_⟩
  · rw [hfault, CursorReply.isSuccess]
  · rw [hfault]
    rintro f ⟨⟩
    rfl

/-- A call that does not take the first token stays in front of it. -/
theorem stays_of_not_takes (h : ∀ l ∈ ts.head?, ∀ reply, ¬ Takes (call, reply) l.token) :
    call.Stays ts := by
  cases call with
  | peek kind => exact ⟨rfl, rfl, nofun⟩
  | accept kind =>
    have hrun : CursorCall.run ts (.accept kind) = (.accepted false, ts) := by
      cases ts with
      | nil => rfl
      | cons l rest =>
        have hkind : l.token.kind ≠ kind := by
          rintro rfl
          exact h l rfl _ .accept
        simp only [run, Tokens.accept?, hkind, if_false]
    refine ⟨congrArg Prod.snd hrun, ?_, ?_⟩
    · rw [hrun, CursorReply.isSuccess]
    · rw [hrun]
      nofun
  | expect kind =>
    refine stays_of_token rfl (fun t a ht => ?_) h
    obtain ⟨rfl, -⟩ := Option.ite_none_right_eq_some.1 ht
    exact .expect
  | identifier =>
    refine stays_of_token rfl (fun t name ht => ?_) h
    cases t <;> cases ht
    exact .identifier
  | number =>
    refine stays_of_token rfl (fun t a ht => ?_) h
    cases t <;> cases ht
    exact .number
  | string =>
    refine stays_of_token rfl (fun t text ht => ?_) h
    cases t <;> cases ht
    exact .string

theorem stays_or_takes (call : CursorCall) (ts : Tokens) : call.Stays ts ∨
    ∃ l rest reply, ts = l :: rest ∧ Takes (call, reply) l.token := by
  by_cases htakes : ∃ l ∈ ts.head?, ∃ reply, Takes (call, reply) l.token
  · obtain ⟨l, hl, reply, htakes⟩ := htakes
    obtain ⟨rest, hts⟩ := List.head?_eq_some_iff.1 hl
    exact .inr ⟨l, rest, reply, hts, htakes⟩
  · exact .inl (stays_of_not_takes fun l hl reply h => htakes ⟨l, hl, reply, h⟩)

/-- A call succeeds just if it takes the first token. -/
theorem isSuccess_run_iff :
    (call.run ts).1.isSuccess ↔ ∃ l reply, ts.head? = some l ∧ Takes (call, reply) l.token := by
  constructor
  · intro hsuccess
    rcases stays_or_takes call ts with hstays | ⟨l, rest, reply, rfl, htakes⟩
    · exact absurd (hstays.isSuccess_eq.symm.trans hsuccess) Bool.false_ne_true
    · exact ⟨l, reply, rfl, htakes⟩
  · rintro ⟨l, reply, hl, htakes⟩
    obtain ⟨rest, rfl⟩ := List.head?_eq_some_iff.1 hl
    rw [run_of_takes htakes]
    exact htakes.isSuccess

theorem stays_of_fails (h : (call.run ts).1.isSuccess = false) : call.Stays ts := by
  rcases stays_or_takes call ts with hstays | ⟨l, rest, reply, rfl, htakes⟩
  · exact hstays
  · rw [run_of_takes htakes, htakes.isSuccess] at h
    cases h

/-! ## Calls in turn -/

theorem successes_of_takes (h : Takes (call, reply) l.token) (calls : List CursorCall) :
    successes (l :: rest) (call :: calls) = (call, reply) :: successes rest calls := by
  rw [successes, exchanges, run_of_takes h]
  exact List.filter_cons_of_pos h.isSuccess

theorem successes_of_stays (h : call.Stays ts) (calls : List CursorCall) :
    successes ts (call :: calls) = successes ts calls := by
  rw [successes, exchanges, h.rest_eq]
  exact List.filter_cons_of_neg (by simp [h.isSuccess_eq])

/-- Calls take tokens from the front: each that succeeds takes one, and what they did not take is left. -/
theorem exists_taken (ts : Tokens) (calls : List CursorCall) : ∃ taken, ts = taken ++ after ts calls ∧
    List.Forall₂ (fun exchange l => Takes exchange l.token) (successes ts calls) taken := by
  induction calls generalizing ts with
  | nil => exact ⟨[], rfl, .nil⟩
  | cons call calls ih =>
    rw [after, List.foldl_cons, ← after]
    rcases stays_or_takes call ts with hstays | ⟨l, rest, reply, rfl, htakes⟩
    · rw [hstays.rest_eq, successes_of_stays hstays]
      exact ih ts
    · obtain ⟨taken, hrest, htaken⟩ := ih rest
      rw [run_of_takes htakes, successes_of_takes htakes]
      exact ⟨l :: taken, congrArg (l :: ·) hrest, .cons htakes htaken⟩

theorem takes_successes (ts : Tokens) (calls : List CursorCall) :
    List.Forall₂ (fun exchange l => Takes exchange l.token) (successes ts calls)
      (ts.take (successes ts calls).length) := by
  obtain ⟨taken, hts, htaken⟩ := exists_taken ts calls
  rw [htaken.length_eq, ← List.prefix_iff_eq_take.1 ⟨_, hts.symm⟩]
  exact htaken

theorem after_eq_drop (ts : Tokens) (calls : List CursorCall) :
    after ts calls = ts.drop (successes ts calls).length := by
  obtain ⟨taken, hts, htaken⟩ := exists_taken ts calls
  rw [htaken.length_eq]
  exact ((congrArg (List.drop taken.length) hts).trans List.drop_left).symm

end CursorCall

namespace Tokens

variable {ts : Tokens}

/-- No token is the end of the input. -/
theorem kind_ne_endOfInput (t : Token) : t.kind ≠ .endOfInput := by
  cases t <;> nofun

theorem kind_eq_endOfInput_iff : ts.kind = .endOfInput ↔ ts = [] := by
  cases ts with
  | nil => exact iff_of_true rfl rfl
  | cons l rest => exact iff_of_false (kind_ne_endOfInput l.token) (List.cons_ne_nil l rest)

theorem kind_eq_iff {kind : TokenKind} (h : kind ≠ .endOfInput) :
    ts.kind = kind ↔ ∃ l, ts.head? = some l ∧ l.token.kind = kind := by
  cases ts with
  | nil =>
    refine iff_of_false h.symm ?_
    rintro ⟨l, ⟨⟩, -⟩
  | cons l rest =>
    constructor
    · exact fun hkind => ⟨l, rfl, hkind⟩
    · rintro ⟨_, ⟨⟩, hkind⟩
      exact hkind

end Tokens

/-! ## Offsets of tokens -/

namespace Lexed

variable {source : String} {text : Lexed}

/-- Every token starts in the text. -/
theorem start_le_size (h : lex source = .ok text) : ∀ l ∈ text.lexemes, l.1 ≤ text.size := by
  intro l hl
  obtain ⟨htiles, hsize⟩ := lex_eq_ok_iff.1 h
  obtain ⟨before, after, hsplit, hposition⟩ := htiles.exists_split l hl
  have hbytes : source.utf8ByteSize = Lexer.bytes before + Lexer.bytes (l.2.text.toList ++ after) := by
    rw [← Lexer.bytes_append, ← List.append_assoc, ← hsplit, Lexer.bytes_eq, String.ofList_toList]
  omega

/-- A token starts behind those before it. -/
theorem offset_le_offset (h : lex source = .ok text) {i j : Nat} (hij : i ≤ j) :
    text.offset i ≤ text.offset j := by
  rcases Nat.eq_or_lt_of_le hij with rfl | hlt
  · exact Nat.le_refl _
  unfold offset
  cases hj : text.lexemes[j]? with
  | none =>
    cases hi : text.lexemes[i]? with
    | none => exact Nat.le_refl _
    | some l => exact start_le_size h l (List.mem_of_getElem? hi)
  | some l' =>
    obtain ⟨hjlt, rfl⟩ := List.getElem?_eq_some_iff.1 hj
    have hilt : i < text.lexemes.length := Nat.lt_trans hlt hjlt
    rw [List.getElem?_eq_getElem hilt]
    exact Nat.le_trans (Nat.le_add_right ..)
      (List.pairwise_iff_getElem.1 (lex_eq_ok_iff.1 h).1.inOrder.disjoint i j hilt hjlt hlt)

open CursorCall

/-- What calls on the cursor of a text have done, `k` of which succeeded, so that `left` is left to read; and
what a call does that comes next. -/
structure Streams (source : String) (text : Lexed) (calls : List CursorCall) (k : Nat) (left : Tokens) :
    Prop where
  /-- The calls that succeeded took the first tokens of the text, one each and in this order. -/
  takes : List.Forall₂ (fun exchange l => Takes exchange l.token) (successes text.tokens calls)
    (text.tokens.take k)
  left_eq : left = text.tokens.drop k
  /-- The cursor is at the start of the next token, or at the end of the text. -/
  position_eq : text.position left = (text.lexemes[k]?.map (·.1)).getD source.utf8ByteSize
  /-- It never goes back. -/
  position_le (more : List CursorCall) : text.position left ≤ text.position (after left more)
  /-- A call that fails, or only looks, leaves the cursor where it is. -/
  rest_eq (call : CursorCall) : (call.run left).1.isSuccess = false → (call.run left).2 = left
  /-- A fault is where the cursor is. -/
  place_eq (call : CursorCall) (f : Fault) : (call.run left).1 = .fault f → f.place = left
  /-- A call succeeds just if it is one that takes the next token. -/
  isSuccess_iff (call : CursorCall) : (call.run left).1.isSuccess ↔
    ∃ l reply, text.tokens[k]? = some l ∧ Takes (call, reply) l.token
  /-- The next token can be looked at. -/
  peek_iff (kind : TokenKind) : kind ≠ .endOfInput →
    ((CursorCall.peek kind).run left = (.peeked true, left) ↔
      ∃ l, text.tokens[k]? = some l ∧ l.token.kind = kind)
  /-- The end is there just if every token is taken. -/
  peek_end_iff : (CursorCall.peek .endOfInput).run left = (.peeked true, left) ↔
    k = text.tokens.length
  /-- The end itself is never taken. -/
  accept_end : ((CursorCall.accept .endOfInput).run left).1.isSuccess = false
  expect_end : ((CursorCall.expect .endOfInput).run left).1.isSuccess = false

/-- After any calls, the cursor of a text is at the token whose number is how many of the calls succeeded;
those took the tokens before it, and no other call made a difference. -/
theorem streams (h : lex source = .ok text) (calls : List CursorCall) :
    text.Streams source calls (successes text.tokens calls).length (after text.tokens calls) := by
  have htakes := takes_successes text.tokens calls
  have hleft := after_eq_drop text.tokens calls
  generalize hk : (successes text.tokens calls).length = k at htakes hleft ⊢
  generalize after text.tokens calls = left at hleft ⊢
  have hle : k ≤ text.tokens.length := by
    rw [← hk, htakes.length_eq]
    exact List.length_take_le' k _
  have hhead : left.head? = text.tokens[k]? := hleft ▸ List.head?_drop
  have hend {call : CursorCall} (hcall : call = .accept .endOfInput ∨ call = .expect .endOfInput) :
      (call.run left).1.isSuccess = false := by
    rw [← Bool.not_eq_true, isSuccess_run_iff]
    rintro ⟨l, reply, -, htakes⟩
    exact Tokens.kind_ne_endOfInput l.token (htakes.kind_eq hcall)
  refine ⟨htakes, hleft, ?_, ?_, ?_, ?_, ?_, ?_, ?_, hend (.inl rfl), hend (.inr rfl)⟩
  · rw [position_eq_offset, hleft, List.length_drop, Nat.sub_sub_self hle, offset]
    cases text.lexemes[k]? with
    | none => exact (lex_eq_ok_iff.1 h).2
    | some l => rfl
  · intro more
    obtain ⟨taken, hmore, -⟩ := exists_taken left more
    have hsuffix : after left more <:+ left := ⟨taken, hmore.symm⟩
    rw [position_eq_offset, position_eq_offset]
    exact offset_le_offset h (Nat.sub_le_sub_left hsuffix.length_le _)
  · exact fun call hfails => (stays_of_fails hfails).rest_eq
  · intro call f hfault
    have hfails : (call.run left).1.isSuccess = false := by rw [hfault, CursorReply.isSuccess]
    exact (stays_of_fails hfails).place_eq f hfault
  · exact fun call => hhead ▸ isSuccess_run_iff
  · intro kind hkind
    rw [run_peek_iff, Tokens.kind_eq_iff hkind, hhead]
  · rw [run_peek_iff, Tokens.kind_eq_endOfInput_iff, hleft, List.drop_eq_nil_iff]
    omega

/-- The lexemes of `(x)`. -/
def group : Lexed where
  lexemes := [(0, .ofSymbol .leftParen), (1, .ofName "x"), (2, .ofSymbol .rightParen)]
  size := 3

/-- A name in parentheses is taken by three calls, and neither looking nor asking for something else takes
anything. -/
theorem streams_group :
    let calls : List CursorCall := [.peek (.symbol .leftParen), .accept (.symbol .rightParen),
      .accept (.symbol .leftParen), .number, .identifier, .expect (.symbol .rightParen),
      .peek .endOfInput, .accept .endOfInput, .identifier]
    lex "(x)" = .ok group ∧ group.Streams "(x)" calls 3 [] := by
  intro calls
  have hlex : lex "(x)" = .ok group := by with_unfolding_all rfl
  exact ⟨hlex, streams hlex calls⟩

end Lexed

end HostExpr
