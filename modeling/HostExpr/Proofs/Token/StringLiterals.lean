-- SUMMARY: Every text can be written as a string literal, and what is wrong with one that is refused.
import HostExpr.Proofs.Token.Tiling

/-!
# String literals

A text is written between quotes with a backslash before each backslash and each quote of that sort. What
is written so is one token, whatever follows (`lex_stringLiteral`).

Conversely, at a quote the next quote of its sort closes the literal, where a backslash protects whatever
stands after it (`Guarded`). If there is none, the literal is unterminated; else it is a token, or its
first escape without a meaning is the fault (`lex_quote`). One escape is an exception: the scan does not
get past a backslash before a line feed, so a literal with one of these is taken for an unterminated one,
closed or not.
-/

namespace HostExpr

open Lexer

/-! ## Texts behind others -/

/-- The error that many bytes further on. -/
def LexError.shift (n : Nat) (e : LexError) : LexError := ⟨e.fault, n + e.position⟩

namespace Lexer

variable {position : Nat} {cs rest : List Char} {located : List (Nat × Lexeme)}

/-- The lexemes that many bytes further on. -/
def shift (n : Nat) (ls : List (Nat × Lexeme)) : List (Nat × Lexeme) := ls.map fun l => (n + l.1, l.2)

/-- Further on in a text, the same lexemes and the same errors stand further on. -/
theorem lexFrom_add (n position : Nat) (cs : List Char) :
    lexFrom (n + position) cs = shift n <$> (lexFrom position cs).mapError (LexError.shift n) := by
  induction position, cs using lexFrom.induct with
  | case1 position =>
    rw [lexFrom, lexFrom]
    rfl
  | case2 position c rest hblank ih => rw [lexFrom_blank hblank, lexFrom_blank hblank, Nat.add_assoc, ih]
  | case3 position c rest hblank fault hread =>
    rw [lexFrom, lexFrom, if_neg hblank, if_neg hblank, hread]
    rfl
  | case4 position c rest hblank t k hread taken ih =>
    rw [lexFrom, lexFrom, if_neg hblank, if_neg hblank, hread]
    simp only [taken, Nat.add_assoc] at ih ⊢
    rw [ih]
    cases lexFrom (position + bytes (c :: rest.take k)) (rest.drop k) <;> rfl

/-- Behind what is tiled, the scan goes on. -/
theorem Tiles.lexFrom_eq (h : Tiles rest position cs located) : ∃ before, cs = before ++ rest ∧
    lexFrom position cs = (located ++ ·) <$> lexFrom (position + bytes before) rest := by
  induction h with
  | @done position =>
    refine ⟨[], rfl, ?_⟩
    cases hlex : lexFrom position rest <;> simp [bytes, hlex]
  | @blank position c cs ls hblank _ ih =>
    obtain ⟨before, rfl, hlex⟩ := ih
    refine ⟨c :: before, rfl, ?_⟩
    rw [lexFrom_blank hblank, hlex, bytes, Nat.add_assoc]
  | @token position slice cs t ls hlongest hdenotes _ ih =>
    obtain ⟨before, rfl, hlex⟩ := ih
    refine ⟨slice ++ before, (List.append_assoc ..).symm, ?_⟩
    rw [lexFrom_longest hlongest hdenotes, hlex, bytes_append, Nat.add_assoc]
    cases lexFrom (position + (bytes slice + bytes before)) rest <;> rfl

/-- No error stands before the text. -/
theorem le_position_of_lexFrom {e : LexError} (h : lexFrom position cs = .error e) :
    position ≤ e.position := by
  have htiles := tiles_of_lexFrom position cs
  rw [h] at htiles
  obtain ⟨before, after, ls, -, hposition, -⟩ := htiles
  omega

end Lexer

/-- The lexemes of a text behind another lexeme. -/
def Lexed.behind (l : Lexeme) (text : Lexed) : Lexed :=
  ⟨(0, l) :: shift l.text.utf8ByteSize text.lexemes, l.text.utf8ByteSize + text.size⟩

/-- A text behind a lexeme splits as it does by itself. -/
theorem lex_behind {slice : List Char} {t : Token} {rest : String}
    (hlongest : Longest slice (slice ++ rest.toList)) (hdenotes : Denotes slice t) :
    lex (String.ofList slice ++ rest) = Lexed.behind ⟨t, String.ofList slice⟩ <$>
      (lex rest).mapError (LexError.shift (String.ofList slice).utf8ByteSize) := by
  have hrest := lexFrom_add (bytes slice) 0 rest.toList
  rw [Nat.add_comm] at hrest
  unfold lex
  rw [String.toList_append, String.toList_ofList, lexFrom_longest hlongest hdenotes, hrest, bytes_eq,
    String.utf8ByteSize_append]
  cases lexFrom 0 rest.toList <;> rfl

/-! ## Writing a text -/

/-- The letter that a character can be written with, behind a backslash. -/
def escapeLetter? : Char → Option Char
  | '\n' => some 'n'
  | '\t' => some 't'
  | '\r' => some 'r'
  | '\x00' => some '0'
  | _ => none

/-- A character between quotes: a backslash and a quote of the sort stand behind a backslash, and any other
character stands for itself. What has a letter is written with that if it should be. -/
def spellChar (q : Char) (byLetter : Bool) (c : Char) : List Char :=
  if c = q ∨ c = '\\' then ['\\', c]
  else
    match byLetter, escapeLetter? c with
    | true, some letter => ['\\', letter]
    | _, _ => [c]

/-- A text between quotes, with a choice for each position whether to write by letter. -/
def spell (q : Char) (byLetter : Nat → Bool) : List Char → List Char
  | [] => []
  | c :: cs => spellChar q (byLetter 0) c ++ spell q (fun i => byLetter (i + 1)) cs

/-- The text as a string literal. -/
def stringLiteral (q : Char) (byLetter : Nat → Bool) (s : String) : String :=
  .ofList (q :: (spell q byLetter s.toList ++ [q]))

theorem escaped?_of_escapeLetter? {c letter : Char} (h : escapeLetter? c = some letter) :
    escaped? letter = some c := by
  unfold escapeLetter? at h
  split at h
  all_goals cases h
  all_goals rfl

/-- A character stands for itself, however it is written. -/
theorem stands_spellChar {q c : Char} {byLetter : Bool} {body text : List Char} (hq : IsQuote q)
    (h : Stands q body text) : Stands q (spellChar q byLetter c ++ body) (c :: text) := by
  unfold spellChar
  by_cases hguard : c = q ∨ c = '\\'
  · rw [if_pos hguard]
    refine .escape ?_ h
    rcases hguard with rfl | rfl
    · rcases hq with rfl | rfl <;> rfl
    · rfl
  · rw [if_neg hguard]
    obtain ⟨hquote, hbackslash⟩ := not_or.1 hguard
    split
    · exact .escape (escaped?_of_escapeLetter? ‹_›) h
    · exact .plain hquote hbackslash h

theorem stands_spell {q : Char} (hq : IsQuote q) (byLetter : Nat → Bool) (text : List Char) :
    Stands q (spell q byLetter text) text := by
  induction text generalizing byLetter with
  | nil => exact .nil
  | cons c text ih => exact stands_spellChar hq (ih _)

/-- Every text can be written as a string literal: it is one token, which stands for the text. What follows
it splits as it does by itself. -/
theorem lex_stringLiteral {q : Char} (hq : IsQuote q) (byLetter : Nat → Bool) (s : String) :
    lex (stringLiteral q byLetter s) =
      .ok ⟨[(0, ⟨.string s, stringLiteral q byLetter s⟩)], (stringLiteral q byLetter s).utf8ByteSize⟩ ∧
    ∀ rest, lex (stringLiteral q byLetter s ++ rest) =
      Lexed.behind ⟨.string s, stringLiteral q byLetter s⟩ <$>
        (lex rest).mapError (LexError.shift (stringLiteral q byLetter s).utf8ByteSize) := by
  have hstands := stands_spell hq byLetter s.toList
  have hdenotes := Denotes.string hq hstands
  rw [String.ofList_toList] at hdenotes
  have hall : ∀ rest, lex (stringLiteral q byLetter s ++ rest) =
      Lexed.behind ⟨.string s, stringLiteral q byLetter s⟩ <$>
        (lex rest).mapError (LexError.shift (stringLiteral q byLetter s).utf8ByteSize) := by
    intro rest
    refine lex_behind ?_ hdenotes
    rw [List.cons_append, List.append_assoc, List.singleton_append]
    exact longest_literal hq hstands.inside rest.toList
  refine ⟨?_, hall⟩
  have hempty : lex "" = .ok ⟨[], 0⟩ := by with_unfolding_all rfl
  have hnone := hall ""
  rw [String.append_empty, hempty] at hnone
  exact hnone

/-- A quote, a backslash and a line feed in single quotes, with a name behind them. -/
theorem lex_stringLiteral_quote : IsQuote '\'' ∧
    lex "'\\'\\\\\\n'" = .ok ⟨[(0, ⟨.string "'\\\n", "'\\'\\\\\\n'"⟩)], 8⟩ ∧
    lex "'\\'\\\\\\n'x" = .ok ⟨[(0, ⟨.string "'\\\n", "'\\'\\\\\\n'"⟩), (8, .ofName "x")], 9⟩ := by
  have hquote : IsQuote '\'' := .inr rfl
  have hwritten : stringLiteral '\'' (fun _ => true) "'\\\n" = "'\\'\\\\\\n'" := by decide
  have hname : lex "x" = .ok ⟨[(0, .ofName "x")], 1⟩ := by with_unfolding_all rfl
  obtain ⟨hsingle, hall⟩ := lex_stringLiteral hquote (fun _ => true) "'\\\n"
  have hbehind := hall "x"
  rw [hwritten] at hsingle hbehind
  rw [hname] at hbehind
  exact ⟨hquote, hsingle, hbehind⟩

/-! ## The closing quote -/

namespace Lexer

variable {q c : Char} {body body' text cs rest rest' : List Char}

/-- At most one quote closes a literal. -/
theorem Guarded.unique (hq : q ≠ '\\') (h : Guarded q body) (h' : Guarded q body')
    (heq : body ++ q :: rest = body' ++ q :: rest') : body = body' ∧ rest = rest' := by
  -- Both go through the same text, so each step of one is that of the other.
  induction h generalizing body' with
  | nil =>
    cases h' with
    | nil => exact ⟨rfl, (List.cons.inj heq).2⟩
    | plain hquote => exact absurd (List.cons.inj heq).1.symm hquote
    | escape => exact absurd (List.cons.inj heq).1 hq
  | plain hquote hbackslash _ ih =>
    cases h' with
    | nil => exact absurd (List.cons.inj heq).1 hquote
    | plain _ _ h' =>
      obtain ⟨rfl, htail⟩ := List.cons.inj heq
      obtain ⟨rfl, hrest⟩ := ih h' htail
      exact ⟨rfl, hrest⟩
    | escape => exact absurd (List.cons.inj heq).1 hbackslash
  | escape _ ih =>
    cases h' with
    | nil => exact absurd (List.cons.inj heq).1.symm hq
    | plain _ hbackslash => exact absurd (List.cons.inj heq).1.symm hbackslash
    | escape h' =>
      obtain ⟨rfl, htail⟩ := List.cons.inj (List.cons.inj heq).2
      obtain ⟨rfl, hrest⟩ := ih h' htail
      exact ⟨rfl, hrest⟩

/-- A backslash protects a line feed. -/
def ProtectsFeed (q : Char) (body : List Char) : Prop :=
  ∃ before after, body = before ++ '\\' :: '\n' :: after ∧ Guarded q before

/-- What stands before the closing quote is the inside of a literal if no line feed is protected there. -/
theorem Guarded.inside (h : Guarded q body) (hfeed : ¬ ProtectsFeed q body) : Inside q body := by
  induction h with
  | nil => exact .nil
  | @plain c body hquote hbackslash _ ih =>
    refine .plain hquote hbackslash (ih ?_)
    rintro ⟨before, after, rfl, hbefore⟩
    exact hfeed ⟨c :: before, after, rfl, .plain hquote hbackslash hbefore⟩
  | @escape c body _ ih =>
    refine .escape ?_ (ih ?_)
    · rintro rfl
      exact hfeed ⟨[], body, rfl, .nil⟩
    · rintro ⟨before, after, rfl, hbefore⟩
      exact hfeed ⟨'\\' :: c :: before, after, rfl, .escape hbefore⟩

theorem Inside.of_plain (hbackslash : c ≠ '\\') (h : Inside q (c :: body)) : Inside q body := by
  cases h with
  | plain _ _ h => exact h
  | escape => exact absurd rfl hbackslash

theorem Inside.of_escape (h : Inside q ('\\' :: c :: body)) : c ≠ '\n' ∧ Inside q body := by
  cases h with
  | plain _ hbackslash => exact absurd rfl hbackslash
  | escape hfeed h => exact ⟨hfeed, h⟩

/-- No line feed is protected inside a literal. -/
theorem Inside.not_protectsFeed (h : Inside q body) : ¬ ProtectsFeed q body := by
  rintro ⟨before, after, rfl, hbefore⟩
  induction hbefore with
  | nil => exact h.of_escape.1 rfl
  | plain _ hbackslash _ ih => exact ih (h.of_plain hbackslash)
  | escape _ ih => exact ih h.of_escape.2

/-! ## What is read at a quote -/

theorem readToken_stands (hq : IsQuote q) (h : Stands q body text) (rest : List Char) :
    readToken q (body ++ q :: rest) = .ok (.string (.ofList text), body.length + 1) := by
  rw [readToken_literal hq h.inside, unescape_of_stands h]
  rfl

theorem readToken_firstFault (hq : IsQuote q) (hbody : Inside q body) (h : FirstFault q body c)
    (rest : List Char) : readToken q (body ++ q :: rest) = .error (.invalidEscape c) := by
  rw [readToken_literal hq hbody, unescape_firstFault h]
  rfl

/-- Without a quote behind the inside of a literal, that is unterminated. -/
theorem readToken_unterminated (hq : IsQuote q) (h : ∀ body rest, cs = body ++ q :: rest → ¬ Inside q body) :
    readToken q cs = .error .unterminatedString := by
  rw [readToken_quote hq]
  cases hextent : stringExtent? q cs with
  | none => rfl
  | some n =>
    obtain ⟨body, rest, hsplit, -, hbody⟩ := exists_of_stringExtent? hextent
    exact absurd hbody (h body rest hsplit)

/-- A literal with a closing quote is taken for an unterminated one if a line feed is protected in it. -/
theorem readToken_unterminated_iff (hq : IsQuote q) (hbody : Guarded q body) (rest : List Char) :
    readToken q (body ++ q :: rest) = .error .unterminatedString ↔ ProtectsFeed q body := by
  constructor
  · intro hread
    refine Classical.byContradiction fun hfeed => ?_
    rcases hbody.stands_or_firstFault with ⟨text, hstands⟩ | ⟨c, hfault⟩
    · cases (readToken_stands hq hstands rest).symm.trans hread
    · cases (readToken_firstFault hq (hbody.inside hfeed) hfault rest).symm.trans hread
  · intro hfeed
    refine readToken_unterminated hq fun body' rest' heq hinside => ?_
    obtain ⟨rfl, -⟩ := hbody.unique hq.ne_backslash hinside.guarded heq
    exact hinside.not_protectsFeed hfeed

/-- The fault of a literal with a closing quote is its first one, if no line feed is protected in it. -/
theorem readToken_invalidEscape_iff (hq : IsQuote q) (hbody : Guarded q body) (rest : List Char) :
    readToken q (body ++ q :: rest) = .error (.invalidEscape c) ↔
      FirstFault q body c ∧ ¬ ProtectsFeed q body := by
  constructor
  · intro hread
    have hfeed : ¬ ProtectsFeed q body := by
      intro hfeed
      cases ((readToken_unterminated_iff hq hbody rest).2 hfeed).symm.trans hread
    rcases hbody.stands_or_firstFault with ⟨text, hstands⟩ | ⟨c', hfault⟩
    · cases (readToken_stands hq hstands rest).symm.trans hread
    · cases (readToken_firstFault hq (hbody.inside hfeed) hfault rest).symm.trans hread
      exact ⟨hfault, hfeed⟩
  · rintro ⟨hfault, hfeed⟩
    exact readToken_firstFault hq (hbody.inside hfeed) hfault rest

/-! ## Literals in a text -/

variable {source : String} {before : List Char} {located : List (Nat × Lexeme)}

/-- Behind what tiles its beginning, a text goes on as the scan does there. -/
theorem lex_of_tiles (hsource : source.toList = before ++ rest)
    (htiles : Tiles rest 0 source.toList located) :
    lex source = (fun ls => ⟨located ++ ls, source.utf8ByteSize⟩) <$> lexFrom (bytes before) rest := by
  obtain ⟨before', hsource', hlex⟩ := htiles.lexFrom_eq
  obtain rfl := List.append_cancel_right (hsource.symm.trans hsource')
  rw [lex, hlex, Nat.zero_add]
  cases lexFrom (bytes before) rest <;> rfl

/-- An error where the scan stands is one of reading a token there. -/
theorem lexFrom_eq_error_iff {position : Nat} {fault : LexFault} (hblank : isBlank c = false) :
    lexFrom position (c :: cs) = .error ⟨fault, position⟩ ↔ readToken c cs = .error fault := by
  rw [lexFrom, if_neg (ne_true_of_eq_false hblank)]
  constructor
  · intro h
    cases hread : readToken c cs with
    | error fault' =>
      rw [hread] at h
      cases h
      rfl
    | ok read =>
      rw [hread] at h
      -- An error of a later lexeme stands further on.
      cases hlex : lexFrom (position + bytes (c :: cs.take read.2)) (cs.drop read.2) with
      | ok ls =>
        simp only [hlex] at h
        cases h
      | error e =>
        simp only [hlex] at h
        cases h
        have hlater : position + bytes (c :: cs.take read.2) ≤ position := le_position_of_lexFrom hlex
        have hpos := bytes_pos (List.cons_ne_nil c (cs.take read.2))
        omega
  · intro hread
    rw [hread]

/-- An error at the offset of a lexeme is one of reading it. -/
theorem lex_eq_error_iff (hsource : source.toList = before ++ c :: cs)
    (htiles : Tiles (c :: cs) 0 source.toList located) (hblank : isBlank c = false) (fault : LexFault) :
    lex source = .error ⟨fault, bytes before⟩ ↔ readToken c cs = .error fault := by
  rw [lex_of_tiles hsource htiles, ← lexFrom_eq_error_iff hblank]
  cases lexFrom (bytes before) (c :: cs) with
  | ok ls =>
    constructor
    · intro h
      cases h
    · intro h
      cases h
  | error e =>
    constructor
    · rintro ⟨⟩
      rfl
    · rintro ⟨⟩
      rfl

end Lexer

/-- At a quote where a lexeme begins. If a quote closes the literal, then what is between the two stands for
a text or has a first fault: the literal is a token if it stands for a text; it is refused for its first
fault, and just for that, if no line feed is protected; and it is taken for an unterminated one just if a
line feed is protected. If no quote closes it, it is unterminated. -/
theorem lex_quote {source : String} {q : Char} {before cs : List Char} {located : List (Nat × Lexeme)}
    (hq : IsQuote q) (hsource : source.toList = before ++ q :: cs)
    (htiles : Tiles (q :: cs) 0 source.toList located) :
    (∀ body rest, cs = body ++ q :: rest → Guarded q body →
      ((∃ text, Stands q body text) ∨ ∃ c, FirstFault q body c) ∧
      (∀ text, Stands q body text → lex source =
        (fun ls => ⟨located ++ (bytes before, ⟨.string (.ofList text), .ofList (q :: (body ++ [q]))⟩) :: ls,
          source.utf8ByteSize⟩) <$> lexFrom (bytes before + bytes (q :: (body ++ [q]))) rest) ∧
      (∀ c, lex source = .error ⟨.invalidEscape c, bytes before⟩ ↔
        FirstFault q body c ∧ ¬ ProtectsFeed q body) ∧
      (lex source = .error ⟨.unterminatedString, bytes before⟩ ↔ ProtectsFeed q body)) ∧
    ((∀ body rest, cs = body ++ q :: rest → ¬ Guarded q body) →
      lex source = .error ⟨.unterminatedString, bytes before⟩) := by
  have hblank : isBlank q = false := by rcases hq with rfl | rfl <;> rfl
  have herror := lex_eq_error_iff hsource htiles hblank
  constructor
  · rintro body rest rfl hbody
    refine ⟨hbody.stands_or_firstFault, fun text hstands => ?_, fun c => ?_, ?_⟩
    · have hlongest := longest_literal hq hstands.inside rest
      have hslice : q :: (body ++ q :: rest) = q :: (body ++ [q]) ++ rest := by simp
      rw [lex_of_tiles hsource htiles, hslice, lexFrom_longest (hslice ▸ hlongest) (.string hq hstands)]
      cases lexFrom (bytes before + bytes (q :: (body ++ [q]))) rest <;> rfl
    · rw [herror, readToken_invalidEscape_iff hq hbody]
    · rw [herror, readToken_unterminated_iff hq hbody]
  · intro hnone
    rw [herror]
    exact readToken_unterminated hq fun body rest heq hinside => hnone body rest heq hinside.guarded

/-- Behind a bracket, an escape of the letter q. -/
theorem lex_quote_bracketed : IsQuote '\'' ∧ Tiles ['\'', 'a', '\\', 'q', '\'', ')'] 0 "('a\\q')".toList
      [(0, ⟨.symbol .leftParen, "("⟩)] ∧
    lex "('a\\q')" = .error ⟨.invalidEscape 'q', 1⟩ := by
  have hquote : IsQuote '\'' := .inr rfl
  have hbracket : Longest ['('] ['(', '\'', 'a', '\\', 'q', '\'', ')'] :=
    longest_symbol (s := .leftParen) (by decide) (by decide) (by simp [IsQuote]) rfl
  have htiles : Tiles ['\'', 'a', '\\', 'q', '\'', ')'] 0 "('a\\q')".toList
      [(0, ⟨.symbol .leftParen, "("⟩)] :=
    .token hbracket (.symbol .leftParen) .done
  have hplain : Guarded '\'' ['a', '\\', 'q'] := .plain (by decide) (by decide) (.escape .nil)
  have hfault : FirstFault '\'' ['a', '\\', 'q'] 'q' :=
    ⟨['a'], ['a'], [], rfl, .plain (by decide) (by decide) .nil, rfl⟩
  have hfeed : ¬ ProtectsFeed '\'' ['a', '\\', 'q'] :=
    Inside.not_protectsFeed (.plain (by decide) (by decide) (.escape (by decide) .nil))
  have hsource : "('a\\q')".toList = ['('] ++ '\'' :: ['a', '\\', 'q', '\'', ')'] := rfl
  have hall := (lex_quote hquote hsource htiles).1
  obtain ⟨-, -, hescape, -⟩ := hall ['a', '\\', 'q'] [')'] rfl hplain
  exact ⟨hquote, htiles, (hescape 'q').2 ⟨hfault, hfeed⟩⟩

/-- A quote closes this literal, and its first escape without a meaning is that of a line feed. It is taken
for an unterminated one. -/
theorem not_lex_quote_lineFeed : "\"a\\\nb\"".toList = '"' :: (['a', '\\', '\n', 'b'] ++ ['"']) ∧
    Guarded '"' ['a', '\\', '\n', 'b'] ∧ FirstFault '"' ['a', '\\', '\n', 'b'] '\n' ∧
    lex "\"a\\\nb\"" = .error ⟨.unterminatedString, 0⟩ ∧
    lex "\"a\\\nb\"" ≠ .error ⟨.invalidEscape '\n', 0⟩ := by
  have hlex : lex "\"a\\\nb\"" = .error ⟨.unterminatedString, 0⟩ := by with_unfolding_all rfl
  have hguarded : Guarded '"' ['a', '\\', '\n', 'b'] :=
    .plain (by decide) (by decide) (.escape (.plain (by decide) (by decide) .nil))
  refine ⟨rfl, hguarded, ⟨['a'], ['a'], ['b'], rfl, .plain (by decide) (by decide) .nil, rfl⟩, hlex, ?_⟩
  intro hescape
  cases hlex.symm.trans hescape

end HostExpr
