-- SUMMARY: Blanks between lexemes do not matter: tokens, trees and causes of errors stay as they are.
import HostExpr.Compiled
import HostExpr.Proofs.Token.Tiling

/-!
# Respaced texts

A text is respaced by putting other blanks into the gaps before, between and after its lexemes. Blanks may
be put where there were none, but where there were some, some stay.

A lexeme stays the longest match in front of what follows it now: a longer match would have to run over
characters that are no blanks, and up to the next blank nothing follows that did not follow before. Only
string literals have blanks in them, and one with its closing quote is the longest match whatever follows.

So the tokens stay the same. The grammar sees nothing else, and positions are counted in tokens until an
error is reported.
-/

namespace HostExpr

open Lexer

/-! ## Respacing -/

/-- The blanks of a gap, and those that are put in their place: some, if there were some. -/
structure Regapped (gap gap' : List Char) : Prop where
  blanks : ∀ c ∈ gap, isBlank c
  blanks' : ∀ c ∈ gap', isBlank c
  kept : gap ≠ [] → gap' ≠ []

/-- Two texts of the same lexemes, the second one with other gaps. -/
inductive Respaced : Tokens → List Char → List Char → Prop
  | done {gap gap' : List Char} : Regapped gap gap' → Respaced [] gap gap'
  | token {gap gap' cs cs' : List Char} {l : Lexeme} {ls : Tokens} : Regapped gap gap' →
      Respaced ls cs cs' →
      Respaced (l :: ls) (gap ++ (l.text.toList ++ cs)) (gap' ++ (l.text.toList ++ cs'))

/-- The offset of a token by its number, or the length of the text behind the last one. -/
def Lexed.offset (l : Lexed) (i : Nat) : Nat :=
  match l.lexemes[i]? with
  | some (start, _) => start
  | none => l.size

namespace Lexer

/-! ## What follows up to the next blank -/

/-- The text up to its first blank. -/
def untilBlank (cs : List Char) : List Char := cs.takeWhile fun c => !isBlank c

variable {text cs cs' : List Char}

theorem untilBlank_append (h : untilBlank cs' <+: cs) : untilBlank (text ++ cs') <+: text ++ cs := by
  induction text with
  | nil => exact h
  | cons c text ih =>
    rw [List.cons_append, untilBlank, List.takeWhile_cons, List.cons_append]
    split
    · exact List.cons_prefix_cons.2 ⟨rfl, ih⟩
    · exact List.nil_prefix

theorem untilBlank_regapped {gap gap' : List Char} (hgap : Regapped gap gap')
    (h : untilBlank cs' <+: cs) : untilBlank (gap' ++ cs') <+: gap ++ cs := by
  cases gap' with
  | nil =>
    have hnil : gap = [] := Classical.not_not.1 fun hne => hgap.kept hne rfl
    rw [hnil]
    exact h
  | cons c gap' =>
    have hc := hgap.blanks' c (List.mem_cons_self ..)
    rw [List.cons_append, untilBlank, List.takeWhile_cons, hc]
    exact List.nil_prefix

/-- Up to the next blank, nothing follows that did not follow before. -/
theorem untilBlank_respaced {ls : Tokens} (h : Respaced ls cs cs') : untilBlank cs' <+: cs := by
  induction h with
  | done hgap =>
    have hnil : untilBlank [] <+: [] := List.nil_prefix
    have hprefix := untilBlank_regapped hgap hnil
    rw [List.append_nil, List.append_nil] at hprefix
    exact hprefix
  | token hgap _ ih => exact untilBlank_regapped hgap (untilBlank_append ih)

/-! ## Longest matches in front of other texts -/

/-- Only string literals match with blanks in them. -/
theorem Matches.isBlank_eq_false_of_mem {c : Char} (h : Matches (c :: text)) (hquote : ¬ IsQuote c) :
    ∀ d ∈ c :: text, isBlank d = false := by
  rcases h.cases_cons with ⟨-, digits, parts, heq, hdigits, hparts⟩ | ⟨hstart, hparts⟩ | ⟨hq, -⟩ | ⟨s, hs⟩
  · rw [heq]
    have hdigits : ∀ d ∈ digits, isBlank d = false := by
      intro d hd
      rcases hdigits.isDigit_or_point d hd with hdigit | rfl
      · exact Lexer.isBlank_eq_false (isWordPart_of_isDigit hdigit)
      · rfl
    exact List.forall_mem_append.2 ⟨hdigits, fun d hd => Lexer.isBlank_eq_false (hparts d hd)⟩
  · have hparts := fun d hd => Lexer.isBlank_eq_false (hparts d hd)
    exact List.forall_mem_cons.2 ⟨Lexer.isBlank_eq_false (isWordPart_of_isWordStart hstart), hparts⟩
  · exact absurd hq hquote
  · rw [← hs]
    have hall : s.text.toList.all (fun d => !isBlank d) := by cases s <;> decide
    intro d hd
    have hd := List.all_eq_true.1 hall d hd
    rw [Bool.not_eq_true'] at hd
    exact hd

theorem prefix_untilBlank (hbegins : text <+: cs) (hall : ∀ c ∈ text, isBlank c = false) :
    text <+: untilBlank cs := by
  obtain ⟨after, rfl⟩ := hbegins
  rw [untilBlank, List.takeWhile_append_of_pos fun c hc => by rw [hall c hc]; rfl]
  exact List.prefix_append ..

/-- A token stays the longest match if nothing new follows it up to the next blank. -/
theorem Longest.respaced {slice : List Char} {t : Token} (h : Longest slice (slice ++ cs))
    (hdenotes : Denotes slice t) (hfollows : untilBlank cs' <+: cs) : Longest slice (slice ++ cs') := by
  obtain ⟨c, text, rfl⟩ := h.isMatch.exists_cons
  by_cases hquote : IsQuote c
  · rcases h.isMatch.of_isQuote hquote with hbody | ⟨body, rfl, hbody⟩
    · -- A literal without its end is no token.
      have hread := readToken_of_longest h hdenotes
      cases (readToken_openLiteral hquote hbody h).symm.trans hread
    · rw [List.cons_append, List.append_assoc]
      exact longest_literal hquote hbody cs'
  · refine ⟨List.prefix_append .., h.isMatch, fun other hother hmatch => Nat.le_of_not_lt fun hlt => ?_⟩
    -- A longer match has no blanks, so it was there before.
    obtain ⟨more, rfl⟩ :=
      List.prefix_of_prefix_length_le (List.prefix_append ..) hother (Nat.le_of_lt hlt)
    have hblanks : ∀ d ∈ more, isBlank d = false := fun d hd =>
      hmatch.isBlank_eq_false_of_mem hquote d (List.mem_append_right (c :: text) hd)
    have hmore := prefix_untilBlank ((List.prefix_append_right_inj _).1 hother) hblanks
    have hbefore := (List.prefix_append_right_inj (c :: text)).2 (hmore.trans hfollows)
    exact Nat.not_le_of_lt hlt (h.longest _ hbefore hmatch)

/-! ## Tilings of respaced texts -/

variable {rest : List Char} {position : Nat}

theorem Tiles.gap {gap : List Char} {ls : List (Nat × Lexeme)} (hgap : ∀ c ∈ gap, isBlank c)
    (h : Tiles rest (position + bytes gap) cs ls) : Tiles rest position (gap ++ cs) ls := by
  induction gap generalizing position with
  | nil => exact h
  | cons c gap ih =>
    rw [bytes, ← Nat.add_assoc] at h
    exact .blank (hgap c (List.mem_cons_self ..)) (ih (fun d hd => hgap d (List.mem_cons_of_mem _ hd)) h)

/-- The first lexeme of a tiling stands behind a gap. -/
theorem Tiles.exists_gap {l : Nat × Lexeme} {ls : List (Nat × Lexeme)}
    (h : Tiles rest position cs (l :: ls)) : ∃ gap position' cs', cs = gap ++ (l.2.text.toList ++ cs') ∧
      (∀ c ∈ gap, isBlank c) ∧ Longest l.2.text.toList (l.2.text.toList ++ cs') ∧
      Denotes l.2.text.toList l.2.token ∧ Tiles rest position' cs' ls := by
  generalize hls : l :: ls = located at h
  induction h with
  | done => cases hls
  | blank hblank _ ih =>
    obtain ⟨gap, position', cs', rfl, hgap, hrest⟩ := ih hls
    exact ⟨_ :: gap, position', cs', rfl, List.forall_mem_cons.2 ⟨hblank, hgap⟩, hrest⟩
  | token hlongest hdenotes htiles =>
    cases hls
    simp only [String.toList_ofList]
    exact ⟨[], _, _, rfl, nofun, hlongest, hdenotes, htiles⟩

/-- Behind a gap, a text goes on in one way with something that begins with no blank. -/
theorem append_gap_inj {gap gap' : List Char} {c : Char} (hgap : ∀ c ∈ gap, isBlank c)
    (hgap' : ∀ c ∈ gap', isBlank c) (hc : isBlank c = false)
    (h : gap ++ (c :: text ++ cs) = gap' ++ (c :: text ++ cs')) : cs = cs' := by
  have hrun := congrArg (List.takeWhile isBlank) h
  rw [takeWhile_append hgap (by rintro _ ⟨⟩; exact hc),
    takeWhile_append hgap' (by rintro _ ⟨⟩; exact hc)] at hrun
  subst hrun
  exact List.append_cancel_left (List.append_cancel_left h)

/-- A respaced text is tiled by the same lexemes. -/
theorem tiles_respaced {ls : Tokens} (h : Respaced ls cs cs') {located : List (Nat × Lexeme)}
    (htiles : Tiles [] position cs located) (hls : located.map (·.2) = ls) (position' : Nat) :
    ∃ located', Tiles [] position' cs' located' ∧ located'.map (·.2) = ls := by
  induction h generalizing position position' located with
  | @done gap gap' hgap =>
    refine ⟨[], ?_, rfl⟩
    have hgap : Tiles [] position' (gap' ++ []) [] := Tiles.gap hgap.blanks' .done
    rw [List.append_nil] at hgap
    exact hgap
  | @token gap gap' cs cs' l ls hgap hrespaced ih =>
    cases located with
    | nil => cases hls
    | cons first located =>
      obtain ⟨hfirst, hothers⟩ := List.cons.inj hls
      subst hfirst
      obtain ⟨gap₀, position₀, cs₀, heq, hgap₀, hlongest, hdenotes, htiles⟩ := htiles.exists_gap
      obtain ⟨c, text, hslice⟩ := hlongest.isMatch.exists_cons
      have hblank : isBlank c = false := Matches.isBlank_eq_false (hslice ▸ hlongest.isMatch)
      rw [hslice] at heq
      obtain rfl := append_gap_inj hgap.blanks hgap₀ hblank heq
      obtain ⟨others, htiles', hsame⟩ :=
        ih htiles hothers (position' + bytes gap' + bytes first.2.text.toList)
      have hlongest' := hlongest.respaced hdenotes (untilBlank_respaced hrespaced)
      have htoken := Tiles.token hlongest' hdenotes htiles'
      rw [String.ofList_toList] at htoken
      exact ⟨_, htoken.gap hgap.blanks', congrArg (first.2 :: ·) hsame⟩

end Lexer

/-- A respaced text splits into the same lexemes. -/
theorem lex_of_respaced {source source' : String} {text : Lexed} (hlex : lex source = .ok text)
    (h : Respaced text.tokens source.toList source'.toList) :
    ∃ text', lex source' = .ok text' ∧ text'.tokens = text.tokens := by
  obtain ⟨located, htiles, hsame⟩ := tiles_respaced h (lex_eq_ok_iff.1 hlex).1 rfl 0
  exact ⟨⟨located, source'.utf8ByteSize⟩, lex_eq_ok_iff.2 ⟨htiles, rfl⟩, hsame⟩

/-! ## Compiling respaced texts -/

variable {σ : Type}

/-- A place is the offset of the token that is next there. -/
theorem Lexed.position_eq_offset (l : Lexed) (rest : Tokens) :
    l.position rest = l.offset (l.tokens.length - rest.length) := by
  rw [tokens, List.length_map, position, offset, ← List.head?_drop]
  cases l.lexemes.drop (l.lexemes.length - rest.length) <;> rfl

/-- What was read, or the fault, without the records. -/
def Parsed.outcome {α : Type} {n : Nat} : Parsed α n → Except Fault α
  | done _ a _ _ => .ok a
  | failed _ fault => .error fault

/-- What a text compiles to follows from its tokens, but for the offset of an error. -/
theorem Session.compile_value {s : Session σ} {source : String} {text : Lexed}
    (hlex : lex source = .ok text) : (s.compile source).value =
      match (s.wholeExpression text.tokens).outcome with
      | .ok root => .ok ⟨source, root⟩
      | .error fault => .error (.ofFault text fault) := by
  simp only [compile, hlex]
  cases s.wholeExpression text.tokens <;> rfl

/-- Two texts compile to the same tree, or they fail for the same cause and at the same token, or both
behind the last one. -/
def CompileAlike (text text' : Lexed) :
    Except CompileError (Compiled σ) → Except CompileError (Compiled σ) → Prop
  | .ok c, .ok c' => c'.root = c.root
  | .error e, .error e' => e'.cause = e.cause ∧
      ∃ i ≤ text.tokens.length, e.position = text.offset i ∧ e'.position = text'.offset i
  | _, _ => False

/-- A respaced text splits into the same tokens and compiles to the same tree. If it does not compile, the
cause is the same, and its offset is that of the same token, or the length of the text. -/
theorem Session.compile_respaced (s : Session σ) {source source' : String} {text : Lexed}
    (hlex : lex source = .ok text) (h : Respaced text.tokens source.toList source'.toList) :
    ∃ text', lex source' = .ok text' ∧ text'.tokens = text.tokens ∧
      CompileAlike text text' (s.compile source).value (s.compile source').value := by
  obtain ⟨text', hlex', htokens⟩ := lex_of_respaced hlex h
  refine ⟨text', hlex', htokens, ?_⟩
  rw [compile_value hlex, compile_value hlex', htokens]
  cases (s.wholeExpression text.tokens).outcome with
  | ok root => exact rfl
  | error fault =>
    have hposition' := text'.position_eq_offset fault.place
    rw [htokens] at hposition'
    exact ⟨rfl, _, Nat.sub_le .., text.position_eq_offset fault.place, hposition'⟩

/-- The lexemes of `(true)b`. -/
def parenthesized : Lexed where
  lexemes := [(0, .ofSymbol .leftParen), (1, ⟨.truth true, "true"⟩), (5, .ofSymbol .rightParen),
    (6, .ofName "b")]
  size := 7

theorem Session.compile_respaced_parenthesized : lex "(true)b" = .ok parenthesized ∧
    Respaced parenthesized.tokens "(true)b".toList "\t( true)\nb".toList ∧
    ∃ text', lex "\t( true)\nb" = .ok text' ∧ text'.tokens = parenthesized.tokens ∧
      CompileAlike parenthesized text' ((new : Session Unit).compile "(true)b").value
        ((new : Session Unit).compile "\t( true)\nb").value := by
  have hlex : lex "(true)b" = .ok parenthesized := by with_unfolding_all rfl
  have hempty : Regapped [] [] := ⟨nofun, nofun, nofun⟩
  have hfilled : ∀ c, isBlank c → Regapped [] [c] := fun c hc =>
    ⟨nofun, List.forall_mem_singleton.2 hc, nofun⟩
  have h : Respaced parenthesized.tokens "(true)b".toList "\t( true)\nb".toList :=
    .token (hfilled '\t' rfl) (.token (hfilled ' ' rfl) (.token hempty (.token (hfilled '\n' rfl)
      (.done hempty))))
  exact ⟨hlex, h, Session.compile_respaced new hlex h⟩

end HostExpr
