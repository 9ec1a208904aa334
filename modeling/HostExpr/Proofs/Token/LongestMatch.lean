-- SUMMARY: Reading takes the longest match that a text begins with, and fails if that denotes no token.
import Mathlib.Data.List.TakeWhile
import HostExpr.Proofs.Token.Patterns

/-!
# Reading takes longest matches

A number and a word take the characters that can belong to them, a string literal ends at the first quote
that closes it, and of the symbols the long ones are tried first. Each of these is the longest match. So a
token is read if the longest match denotes it (`readToken_of_longest`) and only then
(`longest_of_readToken`), and otherwise the text is refused for what is wrong with its longest match
(`refused_of_readToken`).
-/

namespace HostExpr

namespace Lexer

/-! ## Runs of characters -/

variable {p : Char → Bool} {cs : List Char}

theorem drop_length_takeWhile : cs.drop (cs.takeWhile p).length = cs.dropWhile p := by
  induction cs with
  | nil => rfl
  | cons c cs ih => by_cases h : p c <;> simp [h, ih]

theorem take_length_takeWhile : cs.take (cs.takeWhile p).length = cs.takeWhile p :=
  (List.prefix_iff_eq_take.1 (List.takeWhile_prefix p)).symm

theorem length_le_takeWhile {text : List Char} (hbegins : text <+: cs) (hall : ∀ c ∈ text, p c) :
    text.length ≤ (cs.takeWhile p).length := by
  obtain ⟨rest, rfl⟩ := hbegins
  rw [List.takeWhile_append_of_pos hall, List.length_append]
  exact Nat.le_add_right ..

/-- Digits are parts of words, so a run of these goes on after one of those. -/
theorem takeWhile_isWordPart (cs : List Char) : cs.takeWhile isWordPart =
    cs.takeWhile Decimal.isDigit ++ (cs.dropWhile Decimal.isDigit).takeWhile isWordPart := by
  have hparts : ∀ c ∈ cs.takeWhile Decimal.isDigit, isWordPart c := fun _ hc =>
    isWordPart_of_isDigit (List.mem_takeWhile_imp hc)
  rw [← List.takeWhile_append_of_pos hparts, List.takeWhile_append_dropWhile]

/-! ## Numbers -/

/-- A point and a digit follow the digits, or what follows them is no fraction. -/
theorem fraction_cases (cs : List Char) : fractionExtent (cs.dropWhile Decimal.isDigit) = 0 ∨
    ∃ ds e rest, cs = ds ++ '.' :: e :: rest ∧ (∀ d ∈ ds, Decimal.isDigit d) ∧ Decimal.isDigit e := by
  have hsplit := List.takeWhile_append_dropWhile (p := Decimal.isDigit) (l := cs)
  generalize cs.dropWhile Decimal.isDigit = after at hsplit
  unfold fractionExtent
  split
  · rename_i rest
    split
    · exact .inl rfl
    · rename_i hlength
      cases rest with
      | nil => cases hlength
      | cons e rest =>
        by_cases he : Decimal.isDigit e
        · exact .inr ⟨_, e, rest, hsplit.symm, fun _ => List.mem_takeWhile_imp, he⟩
        · simp [he] at hlength
  · exact .inl rfl

theorem dropWhile_fraction {ds rest : List Char} (hds : ∀ d ∈ ds, Decimal.isDigit d) :
    (ds ++ '.' :: rest).dropWhile Decimal.isDigit = '.' :: rest :=
  dropWhile_append hds (by rintro _ ⟨⟩; rfl)

theorem takeWhile_fraction {ds rest : List Char} (hds : ∀ d ∈ ds, Decimal.isDigit d) :
    (ds ++ '.' :: rest).takeWhile Decimal.isDigit = ds :=
  takeWhile_append hds (by rintro _ ⟨⟩; rfl)

theorem fractionExtent_point {e : Char} {rest : List Char} (he : Decimal.isDigit e) :
    fractionExtent ('.' :: e :: rest) = ((e :: rest).takeWhile Decimal.isDigit).length + 1 := by
  rw [fractionExtent, List.takeWhile_cons, if_pos he]
  rfl

/-- Without a fraction, a number takes everything that words can have. -/
theorem numberExtent_whole (h : fractionExtent (cs.dropWhile Decimal.isDigit) = 0) :
    numberExtent cs = (cs.takeWhile isWordPart).length := by
  rw [numberExtent, drop_length_takeWhile, h, Nat.add_zero, drop_length_takeWhile,
    takeWhile_isWordPart cs, List.length_append]

/-- With a fraction, it takes the digits, the point, and after it everything that words can have. -/
theorem numberExtent_fraction {ds rest : List Char} {e : Char} (hds : ∀ d ∈ ds, Decimal.isDigit d)
    (he : Decimal.isDigit e) : numberExtent (ds ++ '.' :: e :: rest) =
      ds.length + (((e :: rest).takeWhile isWordPart).length + 1) := by
  have hdrop : (ds ++ '.' :: e :: rest).drop
      (ds.length + (((e :: rest).takeWhile Decimal.isDigit).length + 1)) =
        (e :: rest).dropWhile Decimal.isDigit := by
    rw [← List.drop_drop, List.drop_left, List.drop_succ_cons, drop_length_takeWhile]
  rw [numberExtent, takeWhile_fraction hds, List.drop_left, fractionExtent_point he, hdrop,
    takeWhile_isWordPart (e :: rest), List.length_append]
  omega

/-- What follows the first digit of a number: parts of words, or digits and a fraction with parts of
words. -/
theorem number_cases {c : Char} {text : List Char} (h : Matches (c :: text)) (hc : Decimal.isDigit c) :
    (∀ d ∈ text, isWordPart d) ∨ ∃ ds e rest, text = ds ++ '.' :: e :: rest ∧
      (∀ d ∈ ds, Decimal.isDigit d) ∧ Decimal.isDigit e ∧ ∀ d ∈ e :: rest, isWordPart d := by
  obtain ⟨digits, parts, heq, hdigits, hparts⟩ := h.of_isDigit hc
  cases hdigits with
  | whole hne hall =>
    obtain ⟨d, ds, rfl⟩ := List.exists_cons_of_ne_nil hne
    cases heq
    have hds : ∀ d ∈ ds, isWordPart d := fun d hd =>
      isWordPart_of_isDigit (hall d (List.mem_cons_of_mem _ hd))
    exact .inl (List.forall_mem_append.2 ⟨hds, hparts⟩)
  | @fraction ds es hne hall hne' hall' =>
    obtain ⟨d, ds, rfl⟩ := List.exists_cons_of_ne_nil hne
    obtain ⟨e, es, rfl⟩ := List.exists_cons_of_ne_nil hne'
    cases heq
    have hes : ∀ d ∈ e :: es, isWordPart d := fun d hd => isWordPart_of_isDigit (hall' d hd)
    refine .inr ⟨ds, e, es ++ parts, by simp, fun d hd => hall d (List.mem_cons_of_mem _ hd),
      hall' e (List.mem_cons_self ..), ?_⟩
    rw [← List.cons_append]
    exact List.forall_mem_append.2 ⟨hes, hparts⟩

variable {c e : Char} {ds rest : List Char}

theorem longest_whole (hc : Decimal.isDigit c)
    (hnone : fractionExtent (rest.dropWhile Decimal.isDigit) = 0) :
    Longest (c :: rest.takeWhile isWordPart) (c :: rest) := by
  have hdigits : Decimal.IsNumeral [c] :=
    .whole (List.cons_ne_nil c []) (List.forall_mem_singleton.2 hc)
  refine .of_cons (List.takeWhile_prefix _) ?_ fun other hother hmatch => ?_
  · exact .number hdigits fun _ => List.mem_takeWhile_imp
  · rcases number_cases hmatch hc with hparts | ⟨ds, e, es, rfl, hds, he, -⟩
    · exact length_le_takeWhile hother hparts
    · obtain ⟨after, rfl⟩ := hother
      rw [List.append_assoc, List.cons_append, List.cons_append, dropWhile_fraction hds,
        fractionExtent_point he] at hnone
      cases hnone

theorem longest_fraction (hc : Decimal.isDigit c) (hds : ∀ d ∈ ds, Decimal.isDigit d)
    (he : Decimal.isDigit e) : Longest (c :: (ds ++ '.' :: (e :: rest).takeWhile isWordPart))
      (c :: (ds ++ '.' :: e :: rest)) := by
  refine .of_cons ?_ ?_ fun other hother hmatch => ?_
  · rw [List.prefix_append_right_inj, List.cons_prefix_cons]
    exact ⟨rfl, List.takeWhile_prefix _⟩
  · have hdigits : Decimal.IsNumeral ((c :: ds) ++ '.' :: [e]) :=
      .fraction (List.cons_ne_nil c ds) (List.forall_mem_cons.2 ⟨hc, hds⟩) (List.cons_ne_nil e [])
        (List.forall_mem_singleton.2 he)
    have hparts : ∀ d ∈ rest.takeWhile isWordPart, isWordPart d := fun _ => List.mem_takeWhile_imp
    have hmatch := Matches.number hdigits hparts
    rw [List.takeWhile_cons, if_pos (isWordPart_of_isDigit he)]
    simpa using hmatch
  · rw [List.length_append, List.length_cons]
    rcases number_cases hmatch hc with hparts | ⟨ds', e', es, rfl, hds', -, hes⟩
    · -- Parts of words do not reach over the point.
      have hrun : (ds ++ '.' :: e :: rest).takeWhile isWordPart = ds :=
        takeWhile_append (fun d hd => isWordPart_of_isDigit (hds d hd)) (by rintro _ ⟨⟩; rfl)
      have hle := length_le_takeWhile hother hparts
      rw [hrun] at hle
      omega
    · -- The digits before the point are the same, and parts of words follow it.
      obtain ⟨after, hafter⟩ := hother
      rw [List.append_assoc, List.cons_append] at hafter
      have hsame := congrArg (List.takeWhile Decimal.isDigit) hafter
      rw [takeWhile_fraction hds', takeWhile_fraction hds] at hsame
      subst hsame
      have hrest := (List.cons.inj (List.append_cancel_left hafter)).2
      have hle := length_le_takeWhile (p := isWordPart) ⟨after, hrest⟩ hes
      rw [List.length_append, List.length_cons]
      omega

/-- What a number takes is the longest match. -/
theorem longest_number (hc : Decimal.isDigit c) (rest : List Char) :
    ∃ text, Longest (c :: text) (c :: rest) ∧ text.length = numberExtent rest := by
  rcases fraction_cases rest with hnone | ⟨ds, e, rest, rfl, hds, he⟩
  · exact ⟨_, longest_whole hc hnone, (numberExtent_whole hnone).symm⟩
  · refine ⟨_, longest_fraction hc hds he, ?_⟩
    rw [numberExtent_fraction hds he, List.length_append, List.length_cons]

/-! ## Words -/

theorem longest_word (hc : isWordStart c) (rest : List Char) :
    Longest (c :: rest.takeWhile isWordPart) (c :: rest) :=
  .of_cons (List.takeWhile_prefix _) (.word hc fun _ => List.mem_takeWhile_imp) fun _ hother hmatch =>
    length_le_takeWhile hother (hmatch.of_isWordStart hc)

/-! ## String literals -/

variable {q : Char} {body other : List Char}

/-- A string literal does not reach over a quote that closes it. -/
theorem Inside.length_le (hq : q ≠ '\\') (hbody : Inside q body) (hother : Inside q other)
    (hbegins : other <+: body ++ q :: cs) : other.length ≤ body.length := by
  induction hbody generalizing other with
  | nil =>
    rcases List.prefix_cons_iff.1 hbegins with rfl | ⟨other, rfl, -⟩
    · exact Nat.le_refl 0
    · cases hother with
      | plain hne => exact absurd rfl hne
      | escape => exact absurd rfl hq
  | plain _ hbackslash _ ih =>
    rcases List.prefix_cons_iff.1 hbegins with rfl | ⟨other, rfl, hrest⟩
    · exact Nat.zero_le _
    · cases hother with
      | plain _ _ hother => exact Nat.succ_le_succ (ih hother hrest)
      | escape => exact absurd rfl hbackslash
  | escape _ _ ih =>
    rcases List.prefix_cons_iff.1 hbegins with rfl | ⟨other, rfl, hrest⟩
    · exact Nat.zero_le _
    · cases hother with
      | plain _ hbackslash => exact absurd rfl hbackslash
      | escape _ hother =>
        exact Nat.succ_le_succ (Nat.succ_le_succ (ih hother (List.cons_prefix_cons.1 hrest).2))

/-- A string literal with its closing quote is the longest match, whatever follows. -/
theorem longest_literal (hq : IsQuote q) (hbody : Inside q body) (cs : List Char) :
    Longest (q :: (body ++ [q])) (q :: (body ++ q :: cs)) := by
  refine .of_cons ?_ (.literal hq hbody) fun other hother hmatch => ?_
  · rw [List.prefix_append_right_inj]
    exact List.cons_prefix_cons.2 ⟨rfl, List.nil_prefix⟩
  · rw [List.length_append, List.length_singleton]
    rcases hmatch.of_isQuote hq with hinside | ⟨body', rfl, hinside⟩
    · exact Nat.le_succ_of_le (hbody.length_le hq.ne_backslash hinside hother)
    · rw [List.length_append, List.length_singleton]
      have hbegins := (List.prefix_append ..).trans hother
      exact Nat.succ_le_succ (hbody.length_le hq.ne_backslash hinside hbegins)

theorem exists_of_stringExtent? {n : Nat} (h : stringExtent? q cs = some n) :
    ∃ body rest, cs = body ++ q :: rest ∧ n = body.length + 1 ∧ Inside q body := by
  induction cs using stringExtent?.induct q generalizing n with
  | case1 => cases h
  | case2 => cases h
  | case3 rest => simp [stringExtent?] at h
  | case4 c rest hfeed ih =>
    simp only [stringExtent?, hfeed, if_false, Option.map_eq_some_iff] at h
    obtain ⟨m, hm, rfl⟩ := h
    obtain ⟨body, rest, rfl, rfl, hbody⟩ := ih hm
    exact ⟨_, rest, rfl, rfl, .escape hfeed hbody⟩
  | case5 rest hbackslash =>
    simp only [stringExtent?, if_true, Option.some.injEq] at h
    subst h
    exact ⟨[], rest, rfl, rfl, .nil⟩
  | case6 c rest hbackslash hne ih =>
    simp only [stringExtent?, hne, if_false, Option.map_eq_some_iff] at h
    obtain ⟨m, hm, rfl⟩ := h
    obtain ⟨body, rest, rfl, rfl, hbody⟩ := ih hm
    exact ⟨_, rest, rfl, rfl, .plain hne hbackslash hbody⟩

/-! ## Symbols -/

/-- Long symbols are tried before short ones. -/
theorem pairwise_symbols :
    Symbol.all.Pairwise fun s s' => s'.text.toList.length ≤ s.text.toList.length := by
  decide

/-- The symbol that is found is the longest one. -/
theorem length_le_starting? {s s' : Symbol} (h : Symbol.starting? cs = some s)
    (hbegins : s'.text.toList <+: cs) : s'.text.toList.length ≤ s.text.toList.length := by
  obtain ⟨-, before, after, hall, hnone⟩ := List.find?_eq_some_iff_append.1 h
  have hmem := hall ▸ Symbol.mem_all s'
  rcases List.mem_append.1 hmem with hmem | hmem
  · have hfound := hnone s' hmem
    rw [List.isPrefixOf_iff_prefix.2 hbegins] at hfound
    cases hfound
  · rcases List.mem_cons.1 hmem with rfl | hmem
    · exact Nat.le_refl _
    · have hsorted := hall ▸ pairwise_symbols
      exact List.rel_of_pairwise_cons (List.pairwise_append.1 hsorted).2.1 hmem

theorem longest_symbol {s : Symbol} (hdigit : ¬ Decimal.isDigit c) (hstart : ¬ isWordStart c)
    (hquote : ¬ IsQuote c) (h : Symbol.starting? (c :: rest) = some s) :
    Longest s.text.toList (c :: rest) := by
  have hbegins := (List.find?_eq_some_iff_append.1 h).1
  refine ⟨List.isPrefixOf_iff_prefix.1 hbegins, .symbol s, fun other hother hmatch => ?_⟩
  obtain ⟨d, text, rfl⟩ := hmatch.exists_cons
  obtain ⟨rfl, -⟩ := List.cons_prefix_cons.1 hother
  obtain ⟨s', hs'⟩ := hmatch.of_other hdigit hstart hquote
  rw [← hs'] at hother ⊢
  exact length_le_starting? h hother

theorem symbol_injective {s s' : Symbol} (h : s.text.toList = s'.text.toList) : s = s' := by
  have hfirst : Symbol.starting? (s.text.toList ++ []) = some s := s.starting?_append nofun
  have hsecond : Symbol.starting? (s'.text.toList ++ []) = some s' := s'.starting?_append nofun
  rw [h] at hfirst
  cases hfirst.symm.trans hsecond
  rfl

/-! ## Numbers as tokens -/

/-- A number is digits, and a suffix that begins with a letter or an underscore. -/
theorem exists_suffix {digits parts : List Char} (hdigits : Decimal.IsNumeral digits)
    (hparts : ∀ c ∈ parts, isWordPart c) : ∃ digits' suffix, digits ++ parts = digits' ++ suffix ∧
      Decimal.IsNumeral digits' ∧ ∀ c ∈ suffix.head?, isWordStart c := by
  induction parts generalizing digits with
  | nil => exact ⟨digits, [], rfl, hdigits, nofun⟩
  | cons c parts ih =>
    by_cases hstart : isWordStart c
    · refine ⟨digits, c :: parts, rfl, hdigits, ?_⟩
      rintro _ ⟨⟩
      exact hstart
    · have hc := hparts c (List.mem_cons_self ..)
      rw [isWordPart, Bool.or_eq_true] at hc
      have hc : ∀ d ∈ [c], Decimal.isDigit d := List.forall_mem_singleton.2 (hc.resolve_left hstart)
      have hparts := fun d hd => hparts d (List.mem_cons_of_mem _ hd)
      obtain ⟨digits', suffix, heq, hdigits', hsuffix⟩ := ih (hdigits.append hc) hparts
      refine ⟨digits', suffix, ?_, hdigits', hsuffix⟩
      rw [← heq, List.append_assoc, List.singleton_append]

theorem exists_amounts {digits : List Char} (h : Decimal.IsNumeral digits) :
    ∃ plain value, Amounts digits plain value := by
  cases h with
  | whole hne hall => exact ⟨_, _, .whole hne hall⟩
  | fraction hne hall hne' hall' => exact ⟨_, _, .fraction hne hall hne' hall'⟩

/-- The digits of a number are read as its value. -/
theorem Amounts.double? {digits : List Char} {plain : NumberKind} {value : Float}
    (h : Amounts digits plain value) : Decimal.double? digits = some value := by
  obtain ⟨c, ds, hcons, hc⟩ := h.isNumeral.exists_cons
  have hscientific :
      (Decimal.scientific? digits).map (fun n => Decimal.nearest n.1 n.2) = some value := by
    cases h with
    | whole hne hall =>
      have hbefore := List.takeWhile_eq_self_iff.2 hall
      have hafter := List.dropWhile_eq_nil_iff.2 hall
      simp only [Decimal.scientific?, hbefore, hafter, hne, false_and, if_false]
      simp [Decimal.exponent?]
    | fraction hne hall hne' hall' =>
      have hbefore := List.takeWhile_eq_self_iff.2 hall'
      have hafter := List.dropWhile_eq_nil_iff.2 hall'
      simp only [Decimal.scientific?, takeWhile_fraction hall, dropWhile_fraction hall, hbefore, hafter,
        hne, false_and, if_false]
      simp [Decimal.exponent?]
  rw [hcons] at hscientific ⊢
  rw [Decimal.double?_of_isDigit hc]
  exact hscientific

/-- Only without a suffix does the plain kind matter. -/
theorem Suffix.of_ne_nil {plain plain' kind : NumberKind} {suffix : List Char} (hne : suffix ≠ [])
    (h : Suffix plain suffix kind) : Suffix plain' suffix kind := by
  cases h
  case empty => exact absurd rfl hne
  all_goals constructor

theorem ofSuffix?_eq_some_iff {suffix : List Char} {kind : NumberKind} :
    NumberKind.ofSuffix? (String.ofList suffix) = some kind ↔ Suffix .int suffix kind := by
  constructor
  · intro h
    have htext := String.toList_ofList (l := suffix)
    unfold NumberKind.ofSuffix? at h
    split at h <;> cases h <;> rw [‹String.ofList suffix = _›] at htext <;> subst htext <;> constructor
  · intro h
    cases h <;> rfl

/-- The kind of a number follows from its digits and its suffix. -/
theorem Amounts.numberKind?_eq_some_iff {digits suffix : List Char} {plain kind : NumberKind}
    {value : Float} (h : Amounts digits plain value) :
    numberKind? digits suffix = some kind ↔ Suffix plain suffix kind := by
  cases h with
  | whole hne hall =>
    have hpoint : digits.contains '.' = false := by
      rw [Bool.eq_false_iff, List.contains_eq_mem, ne_eq, decide_eq_true_eq]
      intro hmem
      cases hall _ hmem
    rw [numberKind?, if_neg fun h => ne_true_of_eq_false hpoint h.2, ofSuffix?_eq_some_iff]
  | @fraction ds es hne hall hne' hall' =>
    have hpoint : (ds ++ '.' :: es).contains '.' = true := by simp
    unfold numberKind?
    by_cases hsuffix : suffix = []
    · subst hsuffix
      rw [if_pos ⟨rfl, hpoint⟩]
      constructor
      · rintro ⟨⟩
        exact .empty
      · rintro ⟨⟩
        rfl
    · rw [if_neg fun h => hsuffix h.1, ofSuffix?_eq_some_iff]
      exact ⟨.of_ne_nil hsuffix, .of_ne_nil hsuffix⟩

/-! ## Strings as tokens -/

/-- No quote of the sort stands here that no backslash protects. A backslash protects whatever character
stands after it. -/
inductive Guarded (q : Char) : List Char → Prop
  | nil : Guarded q []
  | plain {c : Char} {body : List Char} : c ≠ q → c ≠ '\\' → Guarded q body → Guarded q (c :: body)
  | escape {c : Char} {body : List Char} : Guarded q body → Guarded q ('\\' :: c :: body)

theorem Inside.guarded (h : Inside q body) : Guarded q body := by
  induction h with
  | nil => exact .nil
  | plain hquote hbackslash _ ih => exact .plain hquote hbackslash ih
  | escape _ _ ih => exact .escape ih

/-- The first escape without a meaning is that of the character. -/
def FirstFault (q : Char) (body : List Char) (c : Char) : Prop :=
  ∃ good text more, body = good ++ '\\' :: c :: more ∧ Stands q good text ∧ escaped? c = none

/-- What is before an escape without a meaning does not matter if it stands for a text. -/
theorem unescape_firstFault (h : FirstFault q body c) : unescape body = .error (.invalidEscape c) := by
  obtain ⟨good, text, more, rfl, hgood, hnone⟩ := h
  induction hgood with
  | nil => simp [unescape, hnone]
  | plain _ hbackslash _ ih =>
    rw [List.cons_append, unescape_plain hbackslash, ih]
    rfl
  | escape hescape _ ih =>
    rw [List.cons_append, List.cons_append, unescape_escape hescape, ih]
    rfl

/-- What has no unprotected quote stands for a text, or it has a first fault. -/
theorem Guarded.stands_or_firstFault (h : Guarded q body) :
    (∃ text, Stands q body text) ∨ ∃ c, FirstFault q body c := by
  induction h with
  | nil => exact .inl ⟨[], .nil⟩
  | @plain c body hquote hbackslash _ ih =>
    rcases ih with ⟨text, hstands⟩ | ⟨fault, good, text, more, rfl, hgood, hnone⟩
    · exact .inl ⟨c :: text, .plain hquote hbackslash hstands⟩
    · exact .inr ⟨fault, c :: good, c :: text, more, rfl, .plain hquote hbackslash hgood, hnone⟩
  | @escape c body _ ih =>
    cases hescape : escaped? c with
    | none => exact .inr ⟨c, [], [], body, rfl, .nil, hescape⟩
    | some d =>
      rcases ih with ⟨text, hstands⟩ | ⟨fault, good, text, more, rfl, hgood, hnone⟩
      · exact .inl ⟨d :: text, .escape hescape hstands⟩
      · exact .inr ⟨fault, '\\' :: c :: good, d :: text, more, rfl, .escape hescape hgood, hnone⟩

/-! ## What is read off a longest match -/

variable {text : List Char}

theorem Longest.take (h : Longest (c :: text) (c :: rest)) : rest.take text.length = text :=
  (List.prefix_iff_eq_take.1 (List.cons_prefix_cons.1 h.begins).2).symm

theorem readToken_number (hc : Decimal.isDigit c) (h : Longest (c :: text) (c :: rest)) :
    readToken c rest = (·, text.length) <$> readNumber (c :: text) := by
  obtain ⟨text', hlongest, hlength⟩ := longest_number hc rest
  cases h.unique hlongest
  rw [readToken, if_pos hc, ← hlength]
  simp only [h.take]

theorem readToken_word (hc : isWordStart c) (h : Longest (c :: text) (c :: rest)) :
    readToken c rest = .ok (readWord (c :: text), text.length) := by
  cases h.unique (longest_word hc rest)
  rw [readToken, if_neg (ne_true_of_eq_false (isDigit_eq_false hc)), if_pos hc]
  simp only [take_length_takeWhile]

theorem readToken_quote (hq : IsQuote q) : readToken q rest =
    match stringExtent? q rest with
    | none => .error .unterminatedString
    | some n => (fun text => (.string (String.ofList text), n)) <$> unescape (rest.take (n - 1)) := by
  have hquote : q = '"' ∨ q = '\'' := hq
  unfold readToken
  exact (if_neg (ne_true_of_eq_false hq.isDigit_eq_false)).trans
    ((if_neg (ne_true_of_eq_false hq.isWordStart_eq_false)).trans (if_pos hquote))

theorem readToken_literal (hq : IsQuote q) (hbody : Inside q body) (cs : List Char) :
    readToken q (body ++ q :: cs) =
      (fun text => (.string (String.ofList text), body.length + 1)) <$> unescape body := by
  rw [readToken_quote hq, stringExtent?_of_inside hbody hq.ne_backslash]
  simp only [Nat.add_sub_cancel, List.take_left]

theorem readToken_openLiteral (hq : IsQuote q) (hbody : Inside q body)
    (h : Longest (q :: body) (q :: rest)) : readToken q rest = .error .unterminatedString := by
  rw [readToken_quote hq]
  cases hextent : stringExtent? q rest with
  | none => rfl
  | some n =>
    obtain ⟨body', cs, rfl, -, hbody'⟩ := exists_of_stringExtent? hextent
    cases h.unique (longest_literal hq hbody' cs)
    have hle := hbody'.length_le hq.ne_backslash hbody (List.prefix_refl _)
    rw [List.length_append] at hle
    exact absurd hle (Nat.not_succ_le_self _)

theorem readToken_other (hdigit : ¬ Decimal.isDigit c) (hstart : ¬ isWordStart c)
    (hquote : ¬ IsQuote c) : readToken c rest =
      match Symbol.starting? (c :: rest) with
      | none => .error (.unexpectedCharacter c)
      | some s => .ok (.symbol s, s.text.length - 1) := by
  have hquote : ¬ (c = '"' ∨ c = '\'') := hquote
  unfold readToken
  exact (if_neg hdigit).trans ((if_neg hstart).trans (if_neg hquote))

theorem readToken_symbol {s : Symbol} (hs : s.text.toList = c :: text)
    (h : Longest (c :: text) (c :: rest)) : readToken c rest = .ok (.symbol s, text.length) := by
  obtain ⟨d, text', htext, -, hdigit, hstart, hquote⟩ := s.exists_cons
  cases hs.symm.trans htext
  rw [readToken_other (ne_true_of_eq_false hdigit) (ne_true_of_eq_false hstart) hquote]
  cases hfound : Symbol.starting? (c :: rest) with
  | none =>
    have hmiss := List.find?_eq_none.1 hfound s (Symbol.mem_all s)
    rw [hs] at hmiss
    exact absurd (List.isPrefixOf_iff_prefix.2 h.begins) hmiss
  | some s' =>
    have hlongest :=
      longest_symbol (ne_true_of_eq_false hdigit) (ne_true_of_eq_false hstart) hquote hfound
    cases symbol_injective ((hlongest.unique h).trans hs.symm)
    have hlength : s.text.length = text.length + 1 := by
      rw [← String.length_toList, hs, List.length_cons]
    simp only [hlength, Nat.add_sub_cancel]

/-- Where nothing matches, the first character is unexpected. -/
theorem readToken_of_no_match (h : ∀ slice, slice <+: c :: rest → ¬ Matches slice) :
    readToken c rest = .error (.unexpectedCharacter c) := by
  have hsingle : ¬ Matches [c] := h [c] (List.cons_prefix_cons.2 ⟨rfl, List.nil_prefix⟩)
  have hdigit : ¬ Decimal.isDigit c := by
    intro hc
    have hdigits : Decimal.IsNumeral [c] :=
      .whole (List.cons_ne_nil c []) (List.forall_mem_singleton.2 hc)
    exact hsingle (Matches.number hdigits nofun : Matches ([c] ++ []))
  have hstart : ¬ isWordStart c := fun hc => hsingle (.word hc nofun)
  have hquote : ¬ IsQuote c := fun hc => hsingle (.openLiteral hc .nil)
  rw [readToken_other hdigit hstart hquote]
  cases hfound : Symbol.starting? (c :: rest) with
  | none => rfl
  | some s =>
    exact absurd (.symbol s) (h _ (longest_symbol hdigit hstart hquote hfound).begins)

/-- The token that the longest match denotes is read. -/
theorem readToken_of_longest {t : Token} (h : Longest (c :: text) (c :: rest))
    (hdenotes : Denotes (c :: text) t) : readToken c rest = .ok (t, text.length) := by
  generalize hslice : c :: text = slice at hdenotes
  cases hdenotes with
  | number hamounts hsuffix =>
    obtain ⟨d, ds, rfl, hd⟩ := hamounts.isNumeral.exists_cons
    obtain ⟨rfl, -⟩ := List.cons.inj hslice
    rw [readToken_number hd h, hslice, readNumber_append hamounts.isNumeral hsuffix.isWordStart
      (hamounts.numberKind?_eq_some_iff.2 hsuffix) hamounts.double?]
    rfl
  | truth b =>
    cases b with
    | true =>
      obtain ⟨rfl, rfl⟩ := List.cons.inj (hslice : c :: text = 't' :: "rue".toList)
      exact readToken_word (by decide) h
    | false =>
      obtain ⟨rfl, rfl⟩ := List.cons.inj (hslice : c :: text = 'f' :: "alse".toList)
      exact readToken_word (by decide) h
  | name hname =>
    obtain ⟨d, word, hchars, hd, -⟩ := exists_cons_of_isName hname
    obtain ⟨rfl, -⟩ := List.cons.inj (hslice.trans hchars)
    rw [readToken_word hd h, hslice, readWord_of_isName hname]
  | @string q body value hq hstands =>
    obtain ⟨rfl, rfl⟩ := List.cons.inj hslice
    obtain ⟨cs, rfl⟩ := (List.cons_prefix_cons.1 h.begins).2
    rw [List.append_assoc, List.singleton_append, readToken_literal hq hstands.inside,
      unescape_of_stands hstands, List.length_append]
    rfl
  | symbol s => exact readToken_symbol hslice.symm h

/-! ## Longest matches that denote no token -/

theorem denotes_readWord (hc : isWordStart c) (htext : ∀ d ∈ text, isWordPart d) :
    Denotes (c :: text) (readWord (c :: text)) := by
  have hchars := String.toList_ofList (l := c :: text)
  unfold readWord
  split
  · rw [← hchars, ‹String.ofList _ = _›]
    exact .truth true
  · rw [← hchars, ‹String.ofList _ = _›]
    exact .truth false
  · have hname := Denotes.name (isName_ofList hc htext ‹_› ‹_›)
    rw [hchars] at hname
    exact hname

theorem denotes_or_refused_number (hc : Decimal.isDigit c) (h : Longest (c :: text) (c :: rest)) :
    (∃ t, Denotes (c :: text) t) ∨
      ∃ fault, Refused (c :: rest) fault ∧ readToken c rest = .error fault := by
  obtain ⟨digits, parts, heq, hdigits, hparts⟩ := h.isMatch.of_isDigit hc
  obtain ⟨digits, suffix, hsplit, hdigits, hsuffix⟩ := exists_suffix hdigits hparts
  obtain ⟨plain, value, hamounts⟩ := exists_amounts hdigits
  rw [hsplit] at heq
  by_cases hkind : ∃ kind, Suffix plain suffix kind
  · obtain ⟨kind, hkind⟩ := hkind
    rw [heq]
    exact .inl ⟨_, .number hamounts hkind⟩
  · have hnone : numberKind? digits suffix = none := by
      refine Option.eq_none_iff_forall_ne_some.2 fun kind h => ?_
      exact hkind ⟨kind, hamounts.numberKind?_eq_some_iff.1 h⟩
    refine .inr ⟨_, .suffix (heq ▸ h) hamounts hsuffix (not_exists.1 hkind), ?_⟩
    obtain ⟨hbefore, hafter⟩ := takeWhile_number hdigits hsuffix
    rw [readToken_number hc h, heq, readNumber, hbefore, hafter]
    simp only [hnone]
    rfl

theorem denotes_or_refused_literal (hq : IsQuote q) (hbody : Inside q body)
    (h : Longest (q :: (body ++ [q])) (q :: rest)) : (∃ t, Denotes (q :: (body ++ [q])) t) ∨
      ∃ fault, Refused (q :: rest) fault ∧ readToken q rest = .error fault := by
  rcases hbody.guarded.stands_or_firstFault with ⟨text, htext⟩ | ⟨c, hfault⟩
  · exact .inl ⟨_, .string hq htext⟩
  · have hunescape := unescape_firstFault hfault
    obtain ⟨good, text, more, rfl, hgood, hnone⟩ := hfault
    refine .inr ⟨_, .escape h hq hgood hnone, ?_⟩
    obtain ⟨cs, rfl⟩ := (List.cons_prefix_cons.1 h.begins).2
    rw [List.append_assoc _ [q], List.singleton_append, readToken_literal hq hbody, hunescape]
    rfl

/-- A token is read, and the longest match denotes it, or the text is refused. -/
theorem readToken_cases (hblank : isBlank c = false) (rest : List Char) :
    (∃ text t, Longest (c :: text) (c :: rest) ∧ Denotes (c :: text) t ∧
      readToken c rest = .ok (t, text.length)) ∨
    ∃ fault, Refused (c :: rest) fault ∧ readToken c rest = .error fault := by
  by_cases hmatch : ∃ slice, slice <+: c :: rest ∧ Matches slice
  · obtain ⟨slice, hbegins, hmatch⟩ := hmatch
    obtain ⟨slice, h⟩ := Longest.exists_of_matches hbegins hmatch
    obtain ⟨d, text, rfl⟩ := h.isMatch.exists_cons
    obtain ⟨rfl, -⟩ := List.cons_prefix_cons.1 h.begins
    have hor : (∃ t, Denotes (d :: text) t) ∨
        ∃ fault, Refused (d :: rest) fault ∧ readToken d rest = .error fault := by
      rcases h.isMatch.cases_cons with ⟨hdigit, -⟩ | ⟨hstart, htext⟩ | ⟨hq, hbody⟩ | ⟨s, hs⟩
      · exact denotes_or_refused_number hdigit h
      · exact .inl ⟨_, denotes_readWord hstart htext⟩
      · rcases hbody with hbody | ⟨body, rfl, hbody⟩
        · exact .inr ⟨_, .openLiteral h hq hbody, readToken_openLiteral hq hbody h⟩
        · exact denotes_or_refused_literal hq hbody h
      · exact .inl ⟨_, hs ▸ Denotes.symbol s⟩
    rcases hor with ⟨t, ht⟩ | hrefused
    · exact .inl ⟨text, t, h, ht, readToken_of_longest h ht⟩
    · exact .inr hrefused
  · have hnone : ∀ slice, slice <+: c :: rest → ¬ Matches slice := fun slice hbegins h =>
      hmatch ⟨slice, hbegins, h⟩
    exact .inr ⟨_, .character hblank hnone, readToken_of_no_match hnone⟩

/-- What is read is denoted by the longest match. -/
theorem longest_of_readToken {t : Token} {n : Nat} (hblank : isBlank c = false)
    (h : readToken c rest = .ok (t, n)) :
    ∃ text, Longest (c :: text) (c :: rest) ∧ Denotes (c :: text) t ∧ text.length = n := by
  rcases readToken_cases hblank rest with ⟨text, t', hlongest, hdenotes, hread⟩ | ⟨fault, -, hread⟩
  · cases h.symm.trans hread
    exact ⟨text, hlongest, hdenotes, rfl⟩
  · cases h.symm.trans hread

/-- What is not read is refused for its fault. -/
theorem refused_of_readToken {fault : LexFault} (hblank : isBlank c = false)
    (h : readToken c rest = .error fault) : Refused (c :: rest) fault := by
  rcases readToken_cases hblank rest with ⟨text, t, -, -, hread⟩ | ⟨fault', hrefused, hread⟩
  · cases h.symm.trans hread
  · cases h.symm.trans hread
    exact hrefused

end Lexer

end HostExpr
