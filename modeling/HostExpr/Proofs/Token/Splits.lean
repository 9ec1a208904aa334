-- SUMMARY: Texts that split into given lexemes, put together lexeme by lexeme.
import HostExpr.Token.Lexer
import HostExpr.Text.Quoted
import HostExpr.Value
import HostExpr.Proofs.Decimal.Numeral

/-!
# Texts put together from lexemes

`Splits` says which lexemes a text splits into, wherever it stands. A lexeme in front of such a text is
split off again if the text does not go on with it: a word ends before a character that is no part of
words, a number also before a point without a digit, and a symbol before a character that makes no longer
symbol of it.
-/

namespace HostExpr

open Lexer

/-! ## Classes of characters -/

namespace Lexer

theorem isWordPart_of_isWordStart {c : Char} (h : isWordStart c) : isWordPart c := by
  simp [isWordPart, h]

theorem isWordPart_of_isDigit {c : Char} (h : Decimal.isDigit c) : isWordPart c := by
  simp [isWordPart, h]

/-- A word begins with no digit. -/
theorem isDigit_eq_false {c : Char} (h : isWordStart c) : Decimal.isDigit c = false := by
  simp only [isWordStart, Bool.or_eq_true, decide_eq_true_eq] at h
  rcases h with h | rfl
  · delta Char.isAlpha Char.isUpper Char.isLower at h
    simp only [Bool.or_eq_true, Bool.and_eq_true, decide_eq_true_eq] at h
    simp only [Decimal.isDigit, Char.le_def]
    grind
  · decide

theorem isBlank_eq_false {c : Char} (h : isWordPart c) : isBlank c = false := by
  cases hblank : isBlank c with
  | false => rfl
  | true =>
    exfalso
    revert h
    simp only [isBlank, Bool.or_eq_true, decide_eq_true_eq] at hblank
    rcases hblank with (((rfl | rfl) | rfl) | rfl) | rfl <;> decide

end Lexer

/-- The suffix of a kind of number has letters only. -/
theorem NumberKind.isWordStart_of_literalSuffix {kind : NumberKind} {suffix : String}
    (h : kind.literalSuffix = some suffix) : ∀ c ∈ suffix.toList, isWordStart c := by
  unfold NumberKind.literalSuffix at h
  split at h <;> cases h <;> exact List.all_eq_true.1 (by decide)

/-! ## Single lexemes -/

/-- The lexeme of a symbol. -/
def Lexeme.ofSymbol (s : Symbol) : Lexeme := ⟨.symbol s, s.text⟩

/-- The lexeme of a name. -/
def Lexeme.ofName (name : String) : Lexeme := ⟨.identifier name, name⟩

/-- The name is a word that is an identifier. -/
def isName (name : String) : Bool :=
  match name.toList with
  | [] => false
  | c :: word => isWordStart c && word.all isWordPart && name ≠ "true" && name ≠ "false"

/-- What a text may begin with after a word or a number: no part of words, and no fraction. -/
structure EndsWord (cs : List Char) : Prop where
  noPart : ∀ c ∈ cs.head?, isWordPart c = false
  noFraction : fractionExtent cs = 0

/-- What a text may begin with after a symbol that longer ones begin with. -/
def EndsSymbol (cs : List Char) : Prop := ∀ c ∈ cs.head?, c ∉ ['=', '<', '>', '&', '|']

theorem exists_cons_of_isName {name : String} (h : isName name) :
    ∃ c word, name.toList = c :: word ∧ isWordStart c ∧ ∀ d ∈ word, isWordPart d := by
  unfold isName at h
  split at h
  · cases h
  · rename_i c word hchars
    simp only [Bool.and_eq_true] at h
    exact ⟨c, word, hchars, h.1.1.1, List.all_eq_true.1 h.1.1.2⟩

theorem isName_ofList {c : Char} {text : List Char} (hc : isWordStart c)
    (htext : ∀ d ∈ text, isWordPart d) (htrue : String.ofList (c :: text) ≠ "true")
    (hfalse : String.ofList (c :: text) ≠ "false") : isName (String.ofList (c :: text)) := by
  unfold isName
  rw [String.toList_ofList]
  simp only [Bool.and_eq_true, decide_eq_true_eq]
  exact ⟨⟨⟨hc, List.all_eq_true.2 htext⟩, htrue⟩, hfalse⟩

namespace EndsWord

variable {c : Char} {cs : List Char}

theorem nil : EndsWord [] := ⟨nofun, rfl⟩

theorem cons (hpart : isWordPart c = false) (hpoint : c ≠ '.') : EndsWord (c :: cs) := by
  refine ⟨?_, ?_⟩
  · rintro _ ⟨⟩
    exact hpart
  · rw [fractionExtent]
    rintro rest ⟨⟩
    exact hpoint rfl

/-- A name after a point is no fraction. -/
theorem point {name : String} (hname : isName name) : EndsWord ('.' :: (name.toList ++ cs)) := by
  obtain ⟨c, word, hchars, hc, -⟩ := exists_cons_of_isName hname
  refine ⟨?_, ?_⟩
  · rintro _ ⟨⟩
    rfl
  · rw [hchars, List.cons_append, fractionExtent, List.takeWhile_cons, isDigit_eq_false hc]
    rfl

end EndsWord

namespace EndsSymbol

theorem cons {c : Char} {cs : List Char} (hc : c ∉ ['=', '<', '>', '&', '|']) :
    EndsSymbol (c :: cs) := by
  rintro _ ⟨⟩
  exact hc

theorem wordPart {c : Char} {cs : List Char} (hc : isWordPart c) : EndsSymbol (c :: cs) := by
  refine cons fun hmem => ?_
  simp only [List.mem_cons, List.not_mem_nil, or_false] at hmem
  rcases hmem with rfl | rfl | rfl | rfl | rfl <;> cases hc

theorem name {name : String} {cs : List Char} (hname : isName name) :
    EndsSymbol (name.toList ++ cs) := by
  obtain ⟨c, word, hchars, hc, -⟩ := exists_cons_of_isName hname
  rw [hchars]
  exact wordPart (isWordPart_of_isWordStart hc)

end EndsSymbol

/-! ## The extent of what is read -/

namespace Lexer

variable {cs : List Char}

theorem takeWhile_append {p : Char → Bool} {text : List Char} (htext : ∀ c ∈ text, p c)
    (hcs : ∀ c ∈ cs.head?, p c = false) : (text ++ cs).takeWhile p = text := by
  rw [List.takeWhile_append_of_pos htext]
  cases cs with
  | nil => simp
  | cons c cs => simp [hcs c rfl]

theorem dropWhile_append {p : Char → Bool} {text : List Char} (htext : ∀ c ∈ text, p c)
    (hcs : ∀ c ∈ cs.head?, p c = false) : (text ++ cs).dropWhile p = cs := by
  have hsplit := List.takeWhile_append_dropWhile (p := p) (l := text ++ cs)
  rw [takeWhile_append htext hcs] at hsplit
  exact List.append_cancel_left hsplit

/-- A suffix after a number goes on with neither its digits nor a fraction. -/
theorem endsDigits {suffix : List Char} (hsuffix : ∀ c ∈ suffix, isWordStart c) (hcs : EndsWord cs) :
    (∀ c ∈ (suffix ++ cs).head?, Decimal.isDigit c = false) ∧ fractionExtent (suffix ++ cs) = 0 := by
  cases suffix with
  | nil =>
    refine ⟨fun c hc => ?_, hcs.noFraction⟩
    have hpart := hcs.noPart c hc
    rw [isWordPart, Bool.or_eq_false_iff] at hpart
    exact hpart.2
  | cons d suffix =>
    have hd := hsuffix d (List.mem_cons_self ..)
    constructor
    · rintro _ ⟨⟩
      exact isDigit_eq_false hd
    · rw [List.cons_append, fractionExtent]
      rintro rest ⟨⟩
      cases hd

/-- A number reaches over its digits and its suffix. -/
theorem numberExtent_append {c : Char} {ds suffix : List Char} (hdigits : Decimal.IsNumeral (c :: ds))
    (hsuffix : ∀ c ∈ suffix, isWordStart c) (hcs : EndsWord cs) :
    numberExtent (ds ++ suffix ++ cs) = (ds ++ suffix).length := by
  obtain ⟨hnoDigit, hnoFraction⟩ := endsDigits hsuffix hcs
  have hparts : (suffix ++ cs).takeWhile isWordPart = suffix :=
    takeWhile_append (fun c hc => isWordPart_of_isWordStart (hsuffix c hc)) hcs.noPart
  generalize hall : c :: ds = digits at hdigits
  cases hdigits with
  | whole _ hds =>
    subst hall
    have hwhole : (ds ++ suffix ++ cs).takeWhile Decimal.isDigit = ds := by
      rw [List.append_assoc]
      exact takeWhile_append (fun d hd => hds d (List.mem_cons_of_mem _ hd)) hnoDigit
    rw [numberExtent, hwhole, List.append_assoc, List.drop_left, hnoFraction, Nat.add_zero,
      List.drop_left, hparts, List.length_append]
  | @fraction whole es hne hwhole hne' hes =>
    obtain ⟨_, whole, rfl⟩ := List.exists_cons_of_ne_nil hne
    rw [List.cons_append] at hall
    obtain ⟨rfl, rfl⟩ := List.cons.inj hall
    have hrun : (whole ++ '.' :: (es ++ (suffix ++ cs))).takeWhile Decimal.isDigit = whole :=
      takeWhile_append (fun d hd => hwhole d (List.mem_cons_of_mem _ hd)) (by rintro _ ⟨⟩; rfl)
    have hfraction : fractionExtent ('.' :: (es ++ (suffix ++ cs))) = es.length + 1 := by
      obtain ⟨e, es, rfl⟩ := List.exists_cons_of_ne_nil hne'
      rw [fractionExtent, takeWhile_append hes hnoDigit]
      rfl
    have hdrop : (whole ++ '.' :: (es ++ (suffix ++ cs))).drop (whole.length + (es.length + 1)) =
        suffix ++ cs := by
      rw [← List.drop_drop, List.drop_left, List.drop_succ_cons, List.drop_left]
    simp only [List.append_assoc, List.cons_append, numberExtent, hrun, List.drop_left, hfraction,
      hdrop, hparts, List.length_append, List.length_cons]
    omega

/-- The suffix of a number begins with its first letter or underscore. -/
theorem takeWhile_number {digits suffix : List Char} (hdigits : Decimal.IsNumeral digits)
    (hsuffix : ∀ c ∈ suffix.head?, isWordStart c) :
    ((digits ++ suffix).takeWhile fun c => !isWordStart c) = digits ∧
      ((digits ++ suffix).dropWhile fun c => !isWordStart c) = suffix := by
  have hdigits' : ∀ c ∈ digits, (!isWordStart c) = true := by
    intro c hc
    rw [Bool.not_eq_true', Bool.eq_false_iff]
    intro hstart
    rcases hdigits.isDigit_or_point c hc with hdigit | rfl
    · cases (isDigit_eq_false hstart).symm.trans hdigit
    · cases hstart
  have hsuffix' : ∀ c ∈ suffix.head?, (!isWordStart c) = false := by
    intro c hc
    rw [hsuffix c hc]
    rfl
  exact ⟨takeWhile_append hdigits' hsuffix', dropWhile_append hdigits' hsuffix'⟩

/-- A number is read as its digits with its suffix. -/
theorem readNumber_append {digits suffix : List Char} (hdigits : Decimal.IsNumeral digits)
    (hsuffix : ∀ c ∈ suffix, isWordStart c) {kind : NumberKind} {value : Float}
    (hkind : numberKind? digits suffix = some kind) (hvalue : Decimal.double? digits = some value) :
    readNumber (digits ++ suffix) = .ok (.number value kind) := by
  obtain ⟨hbefore, hafter⟩ :=
    takeWhile_number hdigits fun c hc => hsuffix c (List.mem_of_mem_head? hc)
  rw [readNumber, hbefore, hafter]
  simp only [hkind, hvalue]

theorem readWord_of_isName {name : String} (h : isName name) :
    readWord name.toList = .identifier name := by
  unfold readWord
  rw [String.ofList_toList]
  split
  · cases h
  · cases h
  · rfl

end Lexer

/-! ## The insides of string literals -/

namespace Lexer

/-- The inside of a string literal: no quote of its sort without a backslash, and no backslash before a
line feed. -/
inductive Inside (q : Char) : List Char → Prop
  | nil : Inside q []
  | plain {c : Char} {body : List Char} : c ≠ q → c ≠ '\\' → Inside q body → Inside q (c :: body)
  | escape {c : Char} {body : List Char} : c ≠ '\n' → Inside q body → Inside q ('\\' :: c :: body)

/-- The text that the inside of a string literal stands for. -/
inductive Stands (q : Char) : List Char → List Char → Prop
  | nil : Stands q [] []
  | plain {c : Char} {body text : List Char} : c ≠ q → c ≠ '\\' → Stands q body text →
      Stands q (c :: body) (c :: text)
  | escape {c d : Char} {body text : List Char} : escaped? c = some d → Stands q body text →
      Stands q ('\\' :: c :: body) (d :: text)

variable {q : Char} {body text : List Char}

theorem Stands.inside (h : Stands q body text) : Inside q body := by
  induction h with
  | nil => exact .nil
  | plain hquote hbackslash _ ih => exact .plain hquote hbackslash ih
  | escape hescape _ ih =>
    refine .escape ?_ ih
    rintro rfl
    cases hescape

/-- A string literal ends at the quote after its inside. -/
theorem stringExtent?_of_inside (h : Inside q body) (hq : q ≠ '\\') (cs : List Char) :
    stringExtent? q (body ++ q :: cs) = some (body.length + 1) := by
  induction h with
  | nil => simp [stringExtent?]
  | plain hquote _ _ ih => simp [stringExtent?, hquote, ih]
  | escape hfeed _ ih => simp [stringExtent?, hfeed, ih]

theorem unescape_plain {c : Char} (h : c ≠ '\\') :
    unescape (c :: body) = (c :: ·) <$> unescape body := by
  simp [unescape]

theorem unescape_escape {c d : Char} (h : escaped? c = some d) :
    unescape ('\\' :: c :: body) = (d :: ·) <$> unescape body := by
  simp [unescape, h]

theorem unescape_of_stands (h : Stands q body text) : unescape body = .ok text := by
  induction h with
  | nil => rfl
  | plain _ hbackslash _ ih =>
    rw [unescape_plain hbackslash, ih]
    rfl
  | escape hescape _ ih =>
    rw [unescape_escape hescape, ih]
    rfl

end Lexer

/-! ## Quoted texts -/

namespace Text

/-- The character is written as itself or with an escape of one letter. -/
def isSimple (c : Char) : Bool :=
  escape c = [c] || ['\t', '\r', '\n', '\x00', '\\', '"'].contains c

/-- A simple character is written as itself, and then it needs no escape, or with an escape that stands
for it. -/
theorem escape_of_isSimple {c : Char} (h : isSimple c) :
    (escape c = [c] ∧ c ≠ '\\' ∧ c ≠ '"') ∨
      ∃ d, escape c = ['\\', d] ∧ escaped? d = some c := by
  by_cases hescape : ['\t', '\r', '\n', '\x00', '\\', '"'].contains c
  · simp only [List.contains_eq_mem, List.mem_cons, List.not_mem_nil, or_false, decide_eq_true_eq]
      at hescape
    rcases hescape with rfl | rfl | rfl | rfl | rfl | rfl <;>
      exact .inr ⟨_, rfl, rfl⟩
  · simp only [isSimple, Bool.or_eq_true, decide_eq_true_eq] at h
    refine .inl ⟨h.resolve_right hescape, ?_, ?_⟩ <;> rintro rfl <;> exact hescape rfl

variable {s : List Char}

/-- What is written in quotes stands for the text. -/
theorem stands_escape (hs : ∀ c ∈ s, isSimple c) : Stands '"' (s.flatMap escape) s := by
  induction s with
  | nil => exact .nil
  | cons c s ih =>
    have ih := ih fun d hd => hs d (List.mem_cons_of_mem _ hd)
    rw [List.flatMap_cons]
    rcases escape_of_isSimple (hs c (List.mem_cons_self ..)) with
      ⟨hescape, hbackslash, hquote⟩ | ⟨d, hescape, hstands⟩
    · rw [hescape]
      exact .plain hquote hbackslash ih
    · rw [hescape]
      exact .escape hstands ih

end Text

/-! ## Symbols in front of a text -/

namespace Symbol

/-- A symbol begins with a character that begins no other lexeme. -/
theorem exists_cons (s : Symbol) : ∃ c text, s.text.toList = c :: text ∧ isBlank c = false ∧
    Decimal.isDigit c = false ∧ isWordStart c = false ∧ ¬ (c = '"' ∨ c = '\'') := by
  cases s <;> exact ⟨_, _, rfl, by decide⟩

/-- Longer symbols begin with the symbol. -/
def canGrow : Symbol → Bool
  | bar | ampersand | less | greater | bang => true
  | _ => false

/-- No longer symbol than the one in front is found there. -/
theorem starting?_append (s : Symbol) {cs : List Char} (hcs : s.canGrow → EndsSymbol cs) :
    starting? (s.text.toList ++ cs) = some s := by
  cases cs with
  | nil => cases s <;> decide
  | cons c cs =>
    have hgrows : s.canGrow → '=' ≠ c ∧ '<' ≠ c ∧ '>' ≠ c ∧ '&' ≠ c ∧ '|' ≠ c := by
      intro hgrow
      have hc := hcs hgrow c rfl
      simpa only [List.mem_cons, List.not_mem_nil, or_false, not_or, eq_comm (a := c)] using hc
    cases s
    case bar | ampersand | less | greater | bang =>
      simp [starting?, all, text, List.isPrefixOf, hgrows rfl]
    all_goals simp [starting?, all, text, List.isPrefixOf]

end Symbol

/-! ## Splitting -/

/-- The text splits into the lexemes, at whatever offset it stands. -/
def Splits (cs : List Char) (ls : Tokens) : Prop :=
  ∀ position, ∃ located, lexFrom position cs = .ok located ∧ located.map (·.2) = ls

theorem lex_of_splits {source : String} {ls : Tokens} (h : Splits source.toList ls) :
    ∃ text, lex source = .ok text ∧ text.tokens = ls := by
  obtain ⟨located, hlex, htokens⟩ := h 0
  refine ⟨⟨located, source.utf8ByteSize⟩, ?_, htokens⟩
  rw [lex, hlex]
  rfl

namespace Splits

variable {c : Char} {cs text : List Char} {ls : Tokens}

theorem nil : Splits [] [] := by
  intro position
  refine ⟨[], ?_, rfl⟩
  rw [lexFrom]

theorem blank (h : Splits cs ls) : Splits (' ' :: cs) ls := by
  intro position
  obtain ⟨located, hlex, htokens⟩ := h (position + ' '.utf8Size)
  refine ⟨located, ?_, htokens⟩
  rw [lexFrom, if_pos (by decide), hlex]

/-- A token that is read off the front of a text is its first lexeme. -/
theorem token {t : Token} (hblank : isBlank c = false)
    (hread : readToken c (text ++ cs) = .ok (t, text.length)) (h : Splits cs ls) :
    Splits (c :: text ++ cs) (⟨t, String.ofList (c :: text)⟩ :: ls) := by
  intro position
  obtain ⟨located, hlex, htokens⟩ := h (position + bytes (c :: text))
  refine ⟨(position, ⟨t, String.ofList (c :: text)⟩) :: located, ?_, ?_⟩
  · rw [List.cons_append, lexFrom, if_neg (ne_true_of_eq_false hblank), hread]
    simp only [List.take_left, List.drop_left, hlex]
    rfl
  · rw [List.map_cons, htokens]

/-! ## Words -/

theorem word (hc : isWordStart c) (htext : ∀ d ∈ text, isWordPart d) (hcs : EndsWord cs)
    (h : Splits cs ls) :
    Splits (c :: text ++ cs) (⟨readWord (c :: text), String.ofList (c :: text)⟩ :: ls) := by
  refine token (isBlank_eq_false (isWordPart_of_isWordStart hc)) ?_ h
  rw [readToken, if_neg (ne_true_of_eq_false (isDigit_eq_false hc)), if_pos hc,
    takeWhile_append htext hcs.noPart]
  simp only [List.take_left]

theorem name {name : String} (hname : isName name) (hcs : EndsWord cs) (h : Splits cs ls) :
    Splits (name.toList ++ cs) (.ofName name :: ls) := by
  obtain ⟨c, text, hchars, hc, htext⟩ := exists_cons_of_isName hname
  have hlexeme := word hc htext hcs h
  rw [← hchars, readWord_of_isName hname, String.ofList_toList] at hlexeme
  exact hlexeme

theorem truth (b : Bool) (hcs : EndsWord cs) (h : Splits cs ls) :
    Splits ((Value.boolText b).toList ++ cs) (⟨.truth b, Value.boolText b⟩ :: ls) := by
  cases b with
  | true =>
    have hrest := List.all_eq_true.1 (by decide : "rue".toList.all isWordPart)
    exact word (by decide : isWordStart 't') hrest hcs h
  | false =>
    have hrest := List.all_eq_true.1 (by decide : "alse".toList.all isWordPart)
    exact word (by decide : isWordStart 'f') hrest hcs h

/-! ## Numbers -/

theorem number {digits suffix : List Char} (hdigits : Decimal.IsNumeral digits)
    (hsuffix : ∀ c ∈ suffix, isWordStart c) {kind : NumberKind} {value : Float}
    (hkind : numberKind? digits suffix = some kind) (hvalue : Decimal.double? digits = some value)
    (hcs : EndsWord cs) (h : Splits cs ls) :
    Splits (digits ++ suffix ++ cs)
      (⟨.number value kind, String.ofList (digits ++ suffix)⟩ :: ls) := by
  obtain ⟨c, ds, hcons, hc⟩ := hdigits.exists_cons
  have hblank := isBlank_eq_false (isWordPart_of_isDigit hc)
  have hread := readNumber_append hdigits hsuffix hkind hvalue
  subst hcons
  have htoken : readToken c (ds ++ suffix ++ cs) =
      .ok (.number value kind, (ds ++ suffix).length) := by
    rw [readToken, if_pos hc, numberExtent_append hdigits hsuffix hcs]
    simp only [List.take_left]
    rw [← List.cons_append, hread]
    rfl
  exact token hblank htoken h

/-! ## Strings -/

theorem string {s : String} (hs : ∀ c ∈ s.toList, Text.isSimple c) (h : Splits cs ls) :
    Splits ((Text.quoted s).toList ++ cs) (⟨.string s, Text.quoted s⟩ :: ls) := by
  have hread : readToken '"' (s.toList.flatMap Text.escape ++ ['"'] ++ cs) =
      .ok (.string s, (s.toList.flatMap Text.escape ++ ['"']).length) := by
    have hstands := Text.stands_escape hs
    rw [readToken, if_neg (by decide), if_neg (by decide), if_pos (.inl rfl), List.append_assoc,
      List.singleton_append, stringExtent?_of_inside hstands.inside (by decide)]
    simp only [Nat.add_sub_cancel, List.take_left, unescape_of_stands hstands, List.length_append,
      List.length_singleton]
    rw [← String.ofList_toList (s := s)]
    simp only [String.toList_ofList]
    rfl
  rw [Text.quoted, String.toList_ofList]
  exact token (by decide) hread h

/-! ## Symbols -/

theorem symbol (h : Splits cs ls) (s : Symbol) (hcs : s.canGrow → EndsSymbol cs) :
    Splits (s.text.toList ++ cs) (.ofSymbol s :: ls) := by
  obtain ⟨c, text, htext, hblank, hdigit, hstart, hquote⟩ := s.exists_cons
  have hlongest := s.starting?_append hcs
  have hof : String.ofList (c :: text) = s.text := by rw [← htext, String.ofList_toList]
  have hlength : s.text.length - 1 = text.length := by
    rw [← String.length_toList, htext]
    rfl
  rw [htext] at hlongest ⊢
  rw [Lexeme.ofSymbol, ← hof]
  refine token hblank ?_ h
  rw [readToken, if_neg (ne_true_of_eq_false hdigit),
    if_neg (ne_true_of_eq_false hstart), if_neg hquote, ← List.cons_append, hlongest]
  simp only [hlength]

/-- A symbol of one character, written as that character. -/
theorem mark (h : Splits cs ls) (s : Symbol) (c : Char) (hs : s.text.toList = [c])
    (hcs : s.canGrow → EndsSymbol cs) : Splits (c :: cs) (.ofSymbol s :: ls) := by
  have hsymbol := h.symbol s hcs
  rw [hs] at hsymbol
  exact hsymbol

end Splits

/-! ## The tokens of a text -/

/-- The token is one that texts have: an identifier is a word, and a number is not negative and of a kind
that literals can have. -/
def Token.IsRead : Token → Prop
  | .identifier name => isName name
  | .number value kind => Floating.isNegative (Floating.content value) = false ∧ kind.literalSuffix.isSome
  | _ => True

end HostExpr
