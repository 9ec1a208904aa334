-- SUMMARY: The patterns of lexemes, longest matches, and the token or the fault that a match denotes.
import HostExpr.Proofs.Token.Splits

/-!
# Patterns of lexemes

A lexeme is a match of one of the patterns for numbers, words, string literals and symbols. A quote
that is never closed begins a match too, one that denotes no token.

What lexing has to do is stated here without saying how: which texts match (`Matches`), which match is the
longest one that a text begins with (`Longest`), which token a match denotes (`Denotes`), and for what a
text is refused that begins with no lexeme (`Refused`).
-/

namespace HostExpr

open Lexer

namespace Lexer

/-! ## Numbers -/

/-- The digits of a number, the kind it has without a suffix, and its value: the double nearest to the
decimal. -/
inductive Amounts : List Char → NumberKind → Float → Prop
  | whole {ds : List Char} : ds ≠ [] → (∀ d ∈ ds, Decimal.isDigit d) →
      Amounts ds .int (Decimal.nearest (Decimal.ofDigits ds) 0)
  | fraction {ds es : List Char} : ds ≠ [] → (∀ d ∈ ds, Decimal.isDigit d) → es ≠ [] →
      (∀ d ∈ es, Decimal.isDigit d) →
      Amounts (ds ++ '.' :: es) .double (Decimal.nearest (Decimal.ofDigits (ds ++ es)) (-es.length))

/-- The suffixes of numbers, and the kinds that they select. The plain kind is the one without a
suffix. -/
inductive Suffix (plain : NumberKind) : List Char → NumberKind → Prop
  | empty : Suffix plain [] plain
  | int : Suffix plain ['i'] .int
  | uint : Suffix plain ['u', 'i'] (.integer .uint)
  | long : Suffix plain ['l'] (.integer .long)
  | ulong : Suffix plain ['u', 'l'] (.integer .ulong)
  | float : Suffix plain ['f'] .float
  | double : Suffix plain ['d'] .double

/-! ## String literals -/

/-- The quotes that string literals stand in. -/
def IsQuote (c : Char) : Prop := c = '"' ∨ c = '\''

/-! ## Matches -/

/-- The text matches a pattern. The words `true` and `false` are among the words. -/
inductive Matches : List Char → Prop
  | number {digits parts : List Char} : Decimal.IsNumeral digits → (∀ c ∈ parts, isWordPart c) →
      Matches (digits ++ parts)
  | word {c : Char} {parts : List Char} : isWordStart c → (∀ d ∈ parts, isWordPart d) →
      Matches (c :: parts)
  | literal {q : Char} {body : List Char} : IsQuote q → Inside q body → Matches (q :: (body ++ [q]))
  | openLiteral {q : Char} {body : List Char} : IsQuote q → Inside q body → Matches (q :: body)
  | symbol (s : Symbol) : Matches s.text.toList

/-- The slice is the longest match that the text begins with. -/
structure Longest (slice cs : List Char) : Prop where
  begins : slice <+: cs
  isMatch : Matches slice
  longest : ∀ other, other <+: cs → Matches other → other.length ≤ slice.length

/-- The token that a match denotes. -/
inductive Denotes : List Char → Token → Prop
  | number {digits suffix : List Char} {plain kind : NumberKind} {value : Float} :
      Amounts digits plain value → Suffix plain suffix kind →
      Denotes (digits ++ suffix) (.number value kind)
  | truth (b : Bool) : Denotes (Value.boolText b).toList (.truth b)
  | name {name : String} : isName name → Denotes name.toList (.identifier name)
  | string {q : Char} {body text : List Char} : IsQuote q → Stands q body text →
      Denotes (q :: (body ++ [q])) (.string (String.ofList text))
  | symbol (s : Symbol) : Denotes s.text.toList (.symbol s)

/-- What is wrong with a text that should begin with a lexeme: it begins with neither a blank nor a
match, or its longest match is a number with another suffix, a string literal without its end, or one with
an escape that stands for nothing. -/
inductive Refused : List Char → LexFault → Prop
  | character {c : Char} {rest : List Char} : isBlank c = false →
      (∀ slice, slice <+: c :: rest → ¬ Matches slice) → Refused (c :: rest) (.unexpectedCharacter c)
  | suffix {digits suffix cs : List Char} {plain : NumberKind} {value : Float} :
      Longest (digits ++ suffix) cs → Amounts digits plain value →
      (∀ c ∈ suffix.head?, isWordStart c) → (∀ kind, ¬ Suffix plain suffix kind) →
      Refused cs (.invalidNumberSuffix (String.ofList (digits ++ suffix)) (String.ofList suffix))
  | openLiteral {q : Char} {body cs : List Char} : Longest (q :: body) cs → IsQuote q →
      Inside q body → Refused cs .unterminatedString
  | escape {q c : Char} {good text rest cs : List Char} :
      Longest (q :: (good ++ '\\' :: c :: rest ++ [q])) cs → IsQuote q → Stands q good text →
      escaped? c = none → Refused cs (.invalidEscape c)

/-! ## Beginnings of matches -/

theorem IsQuote.isDigit_eq_false {q : Char} (h : IsQuote q) : Decimal.isDigit q = false := by
  rcases h with rfl | rfl <;> rfl

theorem IsQuote.isWordStart_eq_false {q : Char} (h : IsQuote q) : isWordStart q = false := by
  rcases h with rfl | rfl <;> rfl

theorem IsQuote.ne_backslash {q : Char} (h : IsQuote q) : q ≠ '\\' := by
  rcases h with rfl | rfl <;> decide

namespace Matches

variable {c : Char} {text : List Char}

/-- A match begins with a digit, with the start of a word, with a quote, or as a symbol does; its first
character tells which pattern it matches. -/
theorem cases_cons (h : Matches (c :: text)) :
    (Decimal.isDigit c ∧ ∃ digits parts, c :: text = digits ++ parts ∧ Decimal.IsNumeral digits ∧
      ∀ d ∈ parts, isWordPart d) ∨
    (isWordStart c ∧ ∀ d ∈ text, isWordPart d) ∨
    (IsQuote c ∧ (Inside c text ∨ ∃ body, text = body ++ [c] ∧ Inside c body)) ∨
    ∃ s : Symbol, s.text.toList = c :: text := by
  generalize hslice : c :: text = slice at h
  cases h with
  | number hdigits hparts =>
    obtain ⟨d, ds, rfl, hd⟩ := hdigits.exists_cons
    cases hslice
    exact .inl ⟨hd, _, _, rfl, hdigits, hparts⟩
  | word hstart hparts =>
    cases hslice
    exact .inr (.inl ⟨hstart, hparts⟩)
  | literal hq hbody =>
    cases hslice
    exact .inr (.inr (.inl ⟨hq, .inr ⟨_, rfl, hbody⟩⟩))
  | openLiteral hq hbody =>
    cases hslice
    exact .inr (.inr (.inl ⟨hq, .inl hbody⟩))
  | symbol s => exact .inr (.inr (.inr ⟨s, rfl⟩))

theorem exists_cons {slice : List Char} (h : Matches slice) : ∃ c text, slice = c :: text := by
  cases h with
  | number hdigits =>
    obtain ⟨d, ds, rfl, -⟩ := hdigits.exists_cons
    exact ⟨d, _, rfl⟩
  | word | literal | openLiteral => exact ⟨_, _, rfl⟩
  | symbol s =>
    obtain ⟨c, text, htext, -⟩ := s.exists_cons
    exact ⟨c, text, htext⟩

theorem of_isDigit (h : Matches (c :: text)) (hc : Decimal.isDigit c) :
    ∃ digits parts, c :: text = digits ++ parts ∧ Decimal.IsNumeral digits ∧
      ∀ d ∈ parts, isWordPart d := by
  rcases h.cases_cons with ⟨-, h⟩ | ⟨hstart, -⟩ | ⟨hq, -⟩ | ⟨s, hs⟩
  · exact h
  · cases (isDigit_eq_false hstart).symm.trans hc
  · cases hq.isDigit_eq_false.symm.trans hc
  · obtain ⟨d, rest, hd, -, hdigit, -⟩ := s.exists_cons
    cases hs.symm.trans hd
    cases hdigit.symm.trans hc

theorem of_isWordStart (h : Matches (c :: text)) (hc : isWordStart c) : ∀ d ∈ text, isWordPart d := by
  rcases h.cases_cons with ⟨hdigit, -⟩ | ⟨-, h⟩ | ⟨hq, -⟩ | ⟨s, hs⟩
  · cases (isDigit_eq_false hc).symm.trans hdigit
  · exact h
  · cases hq.isWordStart_eq_false.symm.trans hc
  · obtain ⟨d, rest, hd, -, -, hstart, -⟩ := s.exists_cons
    cases hs.symm.trans hd
    cases hstart.symm.trans hc

theorem of_isQuote (h : Matches (c :: text)) (hc : IsQuote c) :
    Inside c text ∨ ∃ body, text = body ++ [c] ∧ Inside c body := by
  rcases h.cases_cons with ⟨hdigit, -⟩ | ⟨hstart, -⟩ | ⟨-, h⟩ | ⟨s, hs⟩
  · cases hc.isDigit_eq_false.symm.trans hdigit
  · cases hc.isWordStart_eq_false.symm.trans hstart
  · exact h
  · obtain ⟨d, rest, hd, -, -, -, hquote⟩ := s.exists_cons
    cases hs.symm.trans hd
    exact absurd hc hquote

theorem of_other (h : Matches (c :: text)) (hdigit : ¬ Decimal.isDigit c) (hstart : ¬ isWordStart c)
    (hquote : ¬ IsQuote c) : ∃ s : Symbol, s.text.toList = c :: text := by
  rcases h.cases_cons with ⟨h, -⟩ | ⟨h, -⟩ | ⟨h, -⟩ | h
  · exact absurd h hdigit
  · exact absurd h hstart
  · exact absurd h hquote
  · exact h

/-- No match begins with a blank. -/
theorem isBlank_eq_false (h : Matches (c :: text)) : isBlank c = false := by
  rcases h.cases_cons with ⟨hdigit, -⟩ | ⟨hstart, -⟩ | ⟨hq, -⟩ | ⟨s, hs⟩
  · exact Lexer.isBlank_eq_false (isWordPart_of_isDigit hdigit)
  · exact Lexer.isBlank_eq_false (isWordPart_of_isWordStart hstart)
  · rcases hq with rfl | rfl <;> rfl
  · obtain ⟨d, rest, hd, hblank, -⟩ := s.exists_cons
    cases hs.symm.trans hd
    exact hblank

end Matches

/-! ## Longest matches -/

namespace Longest

variable {slice slice' cs cs' : List Char}

theorem of_cons {c : Char} {text rest : List Char} (hbegins : text <+: rest)
    (hmatch : Matches (c :: text))
    (hlongest : ∀ other, other <+: rest → Matches (c :: other) → other.length ≤ text.length) :
    Longest (c :: text) (c :: rest) := by
  refine ⟨List.cons_prefix_cons.2 ⟨rfl, hbegins⟩, hmatch, fun other hother hmatch => ?_⟩
  rcases List.prefix_cons_iff.1 hother with rfl | ⟨other, rfl, hrest⟩
  · exact Nat.zero_le _
  · exact Nat.succ_le_succ (hlongest other hrest hmatch)

/-- A text that begins with a match begins with a longest one. -/
theorem exists_of_matches {slice cs : List Char} (hbegins : slice <+: cs) (hmatch : Matches slice) :
    ∃ slice, Longest slice cs := by
  by_cases hlongest : ∀ other, other <+: cs → Matches other → other.length ≤ slice.length
  · exact ⟨slice, hbegins, hmatch, hlongest⟩
  · simp only [Classical.not_forall, Nat.not_le] at hlongest
    obtain ⟨other, hother, hmatch', hlonger⟩ := hlongest
    exact exists_of_matches hother hmatch'
termination_by cs.length - slice.length
decreasing_by
  have := hother.length_le
  omega

/-- A text begins with one longest match at most. -/
theorem unique (h : Longest slice cs) (h' : Longest slice' cs) : slice = slice' := by
  have hlength : slice.length = slice'.length :=
    Nat.le_antisymm (h'.longest _ h.begins h.isMatch) (h.longest _ h'.begins h'.isMatch)
  exact (List.prefix_of_prefix_length_le h.begins h'.begins (Nat.le_of_eq hlength)).eq_of_length hlength

/-- What follows a longest match can be cut short. -/
theorem cut (h : Longest slice (slice ++ (cs ++ cs'))) : Longest slice (slice ++ cs) := by
  refine ⟨List.prefix_append .., h.isMatch, fun other hother hmatch => h.longest other ?_ hmatch⟩
  rw [← List.append_assoc]
  exact hother.trans (List.prefix_append ..)

end Longest

/-! ## Tokens are denoted by matches -/

theorem Amounts.isNumeral {digits : List Char} {plain : NumberKind} {value : Float}
    (h : Amounts digits plain value) : Decimal.IsNumeral digits := by
  cases h with
  | whole hne hall => exact .whole hne hall
  | fraction hne hall hne' hall' => exact .fraction hne hall hne' hall'

theorem Suffix.isWordStart {plain kind : NumberKind} {suffix : List Char} (h : Suffix plain suffix kind) :
    ∀ c ∈ suffix, isWordStart c := by
  cases h <;> exact List.all_eq_true.1 (by decide)

theorem Denotes.isMatch {slice : List Char} {t : Token} (h : Denotes slice t) : Matches slice := by
  cases h with
  | number hamounts hsuffix =>
    exact .number hamounts.isNumeral fun c hc => isWordPart_of_isWordStart (hsuffix.isWordStart c hc)
  | truth b =>
    cases b with
    | true => exact .word (by decide) (List.all_eq_true.1 (by decide : "rue".toList.all isWordPart))
    | false => exact .word (by decide) (List.all_eq_true.1 (by decide : "alse".toList.all isWordPart))
  | name hname =>
    obtain ⟨c, word, hchars, hc, hword⟩ := exists_cons_of_isName hname
    rw [hchars]
    exact .word hc hword
  | string hq hstands => exact .literal hq hstands.inside
  | symbol s => exact .symbol s

theorem Amounts.isNegative_eq_false {digits : List Char} {plain : NumberKind} {value : Float}
    (h : Amounts digits plain value) : Floating.isNegative (Floating.content value) = false := by
  cases h <;> exact Decimal.isNegative_nearest _ _

/-- A number has a kind that literals can have. -/
theorem Suffix.isSome_literalSuffix {digits suffix : List Char} {plain kind : NumberKind} {value : Float}
    (hamounts : Amounts digits plain value) (h : Suffix plain suffix kind) :
    kind.literalSuffix.isSome := by
  cases h
  case empty => cases hamounts <;> rfl
  all_goals rfl

/-- A token that a match denotes is one that texts have. -/
theorem Denotes.isRead {slice : List Char} {t : Token} (h : Denotes slice t) : t.IsRead := by
  cases h with
  | number hamounts hsuffix =>
    exact ⟨hamounts.isNegative_eq_false, hsuffix.isSome_literalSuffix hamounts⟩
  | name hname => exact hname
  | truth | string | symbol => trivial

end Lexer

end HostExpr
