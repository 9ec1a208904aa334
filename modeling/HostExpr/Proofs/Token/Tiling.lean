-- SUMMARY: The lexemes of a text tile it by longest matches, up to its end or to what is refused.
import HostExpr.Proofs.Token.LongestMatch

/-!
# Tilings

The lexemes of a text stand in it one after another with nothing but blanks before, between and after
them, and each is the longest match where it starts. `Tiles` says so by recursion on the text; it has one
case for each case of the scan, so that a text splits into lexemes exactly if they tile it
(`lexFrom_eq_ok_iff`).

A text that does not split is tiled up to what is refused. What stands before that splits by itself, and
into the same lexemes: to cut a text short behind a longest match does not change that match.
-/

namespace HostExpr

namespace Lexer

/-- The lexemes, each with the offset that it starts at, tile the text from the given offset on, up to
`rest`. -/
inductive Tiles (rest : List Char) : Nat → List Char → List (Nat × Lexeme) → Prop
  | done {position : Nat} : Tiles rest position rest []
  | blank {position : Nat} {c : Char} {cs : List Char} {ls : List (Nat × Lexeme)} : isBlank c →
      Tiles rest (position + c.utf8Size) cs ls → Tiles rest position (c :: cs) ls
  | token {position : Nat} {slice cs : List Char} {t : Token} {ls : List (Nat × Lexeme)} :
      Longest slice (slice ++ cs) → Denotes slice t → Tiles rest (position + bytes slice) cs ls →
      Tiles rest position (slice ++ cs) ((position, ⟨t, String.ofList slice⟩) :: ls)

/-- The spans of the lexemes are not empty, and each ends before the next one starts. -/
structure InOrder (ls : List (Nat × Lexeme)) : Prop where
  nonempty : ∀ l ∈ ls, 0 < l.2.text.utf8ByteSize
  disjoint : ls.Pairwise fun l l' => l.1 + l.2.text.utf8ByteSize ≤ l'.1

variable {position : Nat} {cs rest : List Char} {ls : List (Nat × Lexeme)}

/-! ## Offsets -/

theorem bytes_eq (cs : List Char) : bytes cs = (String.ofList cs).utf8ByteSize := by
  induction cs with
  | nil => rfl
  | cons c cs ih => rw [bytes, ih, String.ofList_cons, String.utf8ByteSize_append,
      String.utf8ByteSize_singleton]

theorem bytes_append (cs cs' : List Char) : bytes (cs ++ cs') = bytes cs + bytes cs' := by
  rw [bytes_eq, bytes_eq, bytes_eq, String.ofList_append, String.utf8ByteSize_append]

theorem bytes_pos {cs : List Char} (h : cs ≠ []) : 0 < bytes cs := by
  obtain ⟨c, cs, rfl⟩ := List.exists_cons_of_ne_nil h
  exact Nat.add_pos_left c.utf8Size_pos _

/-- The lexemes start where the tiling does, or later. -/
theorem Tiles.le_start (h : Tiles rest position cs ls) : ∀ l ∈ ls, position ≤ l.1 := by
  induction h with
  | done => nofun
  | blank _ _ ih => exact fun l hl => Nat.le_trans (Nat.le_add_right ..) (ih l hl)
  | token _ _ _ ih =>
    refine List.forall_mem_cons.2 ⟨Nat.le_refl _, fun l hl => ?_⟩
    exact Nat.le_trans (Nat.le_add_right ..) (ih l hl)

theorem Tiles.inOrder (h : Tiles rest position cs ls) : InOrder ls := by
  induction h with
  | done => exact ⟨nofun, .nil⟩
  | blank _ _ ih => exact ih
  | @token position slice cs t ls hlongest hdenotes htiles ih =>
    obtain ⟨c, text, hslice⟩ := hdenotes.isMatch.exists_cons
    refine ⟨List.forall_mem_cons.2 ⟨?_, ih.nonempty⟩, .cons ?_ ih.disjoint⟩
    · rw [← bytes_eq, hslice]
      exact bytes_pos (List.cons_ne_nil c text)
    · intro l hl
      rw [← bytes_eq]
      exact htiles.le_start l hl

/-- The text of each lexeme denotes its token. -/
theorem Tiles.denotes (h : Tiles rest position cs ls) :
    ∀ l ∈ ls, Denotes l.2.text.toList l.2.token := by
  induction h with
  | done => nofun
  | blank _ _ ih => exact ih
  | token _ hdenotes _ ih =>
    refine List.forall_mem_cons.2 ⟨?_, ih⟩
    rw [String.toList_ofList]
    exact hdenotes

/-- Each lexeme stands in the text, at its offset. -/
theorem Tiles.exists_split (h : Tiles rest position cs ls) :
    ∀ l ∈ ls, ∃ before after, cs = before ++ l.2.text.toList ++ after ∧
      position + bytes before = l.1 := by
  induction h with
  | done => nofun
  | @blank position c cs ls _ _ ih =>
    intro l hl
    obtain ⟨before, after, rfl, hposition⟩ := ih l hl
    exact ⟨c :: before, after, rfl, by rw [bytes, ← Nat.add_assoc, hposition]⟩
  | @token position slice cs t ls _ _ _ ih =>
    refine List.forall_mem_cons.2 ⟨⟨[], cs, ?_, rfl⟩, fun l hl => ?_⟩
    · rw [String.toList_ofList, List.nil_append]
    · obtain ⟨before, after, rfl, hposition⟩ := ih l hl
      refine ⟨slice ++ before, after, ?_, by rw [bytes_append, ← Nat.add_assoc, hposition]⟩
      simp only [List.append_assoc]

/-! ## Tilings and the scan -/

theorem lexFrom_blank {c : Char} (h : isBlank c) :
    lexFrom position (c :: cs) = lexFrom (position + c.utf8Size) cs := by
  rw [lexFrom, if_pos h]

/-- The scan splits off the longest match. -/
theorem lexFrom_longest {slice : List Char} {t : Token} (hlongest : Longest slice (slice ++ cs))
    (hdenotes : Denotes slice t) : lexFrom position (slice ++ cs) =
      ((position, ⟨t, String.ofList slice⟩) :: ·) <$> lexFrom (position + bytes slice) cs := by
  obtain ⟨c, text, rfl⟩ := hdenotes.isMatch.exists_cons
  have hblank := hdenotes.isMatch.isBlank_eq_false
  rw [List.cons_append] at hlongest ⊢
  rw [lexFrom, if_neg (ne_true_of_eq_false hblank), readToken_of_longest hlongest hdenotes]
  simp only [List.take_left, List.drop_left]

theorem lexFrom_of_tiles (h : Tiles [] position cs ls) : lexFrom position cs = .ok ls := by
  induction h with
  | done => rw [lexFrom]
  | blank hblank _ ih => rw [lexFrom_blank hblank, ih]
  | token hlongest hdenotes _ ih =>
    rw [lexFrom_longest hlongest hdenotes, ih]
    rfl

/-- The scan tiles the text by what it splits off, up to the end or to what is refused. -/
theorem tiles_of_lexFrom (position : Nat) (cs : List Char) :
    match lexFrom position cs with
    | .ok ls => Tiles [] position cs ls
    | .error e => ∃ before after ls, cs = before ++ after ∧ e.position = position + bytes before ∧
        Tiles after position cs ls ∧ Refused after e.fault := by
  induction position, cs using lexFrom.induct with
  | case1 position =>
    rw [lexFrom]
    exact .done
  | case2 position c rest hblank ih =>
    rw [lexFrom_blank hblank]
    revert ih
    cases lexFrom (position + c.utf8Size) rest with
    | ok ls => exact .blank hblank
    | error e =>
      rintro ⟨before, after, ls, rfl, hposition, htiles, hrefused⟩
      refine ⟨c :: before, after, ls, rfl, ?_, .blank hblank htiles, hrefused⟩
      rw [hposition, bytes, Nat.add_assoc]
  | case3 position c rest hblank fault hread =>
    rw [lexFrom, if_neg hblank, hread]
    exact ⟨[], c :: rest, [], rfl, rfl, .done, refused_of_readToken (Bool.eq_false_iff.2 hblank) hread⟩
  | case4 position c rest hblank t n hread taken ih =>
    obtain ⟨text, hlongest, hdenotes, rfl⟩ := longest_of_readToken (Bool.eq_false_iff.2 hblank) hread
    obtain ⟨cs, rfl⟩ := (List.cons_prefix_cons.1 hlongest.begins).2
    rw [← List.cons_append] at hlongest ⊢
    rw [lexFrom_longest hlongest hdenotes]
    revert ih
    simp only [taken, List.take_left, List.drop_left]
    cases lexFrom (position + bytes (c :: text)) cs with
    | ok ls => exact .token hlongest hdenotes
    | error e =>
      rintro ⟨before, after, ls, rfl, hposition, htiles, hrefused⟩
      refine ⟨(c :: text) ++ before, after, _, (List.append_assoc ..).symm, ?_,
        .token hlongest hdenotes htiles, hrefused⟩
      rw [hposition, bytes_append, Nat.add_assoc]

theorem lexFrom_eq_ok_iff : lexFrom position cs = .ok ls ↔ Tiles [] position cs ls := by
  refine ⟨fun h => ?_, lexFrom_of_tiles⟩
  have htiles := tiles_of_lexFrom position cs
  rw [h] at htiles
  exact htiles

/-- What is tiled up to a rest is tiled without the rest too. -/
theorem Tiles.exists_before (h : Tiles rest position cs ls) :
    ∃ before, cs = before ++ rest ∧ Tiles [] position before ls := by
  induction h with
  | done => exact ⟨[], rfl, .done⟩
  | @blank position c cs ls hblank _ ih =>
    obtain ⟨before, rfl, htiles⟩ := ih
    exact ⟨c :: before, rfl, .blank hblank htiles⟩
  | @token position slice cs t ls hlongest hdenotes _ ih =>
    obtain ⟨before, rfl, htiles⟩ := ih
    exact ⟨slice ++ before, (List.append_assoc ..).symm, .token hlongest.cut hdenotes htiles⟩

/-- No text is refused for a number without a value. -/
theorem Refused.ne_invalidNumber {fault : LexFault} (h : Refused cs fault) (literal : String) :
    fault ≠ .invalidNumber literal := by
  cases h <;> nofun

end Lexer

/-! ## Texts and their lexemes -/

open Lexer

/-- A text splits into the lexemes that tile it. -/
theorem lex_eq_ok_iff {source : String} {text : Lexed} : lex source = .ok text ↔
    Tiles [] 0 source.toList text.lexemes ∧ text.size = source.utf8ByteSize := by
  rw [lex, ← lexFrom_eq_ok_iff]
  cases lexFrom 0 source.toList with
  | error e =>
    constructor
    · intro h
      cases h
    · intro h
      cases h.1
  | ok ls =>
    constructor
    · rintro ⟨⟩
      exact ⟨rfl, rfl⟩
    · rintro ⟨hlexemes, hsize⟩
      cases hlexemes
      cases text
      cases hsize
      rfl

/-- Every token of a text is one that texts have. -/
theorem isRead_of_lex {source : String} {text : Lexed} (h : lex source = .ok text) :
    ∀ l ∈ text.tokens, l.token.IsRead :=
  List.forall_mem_map.2 fun l hl => ((lex_eq_ok_iff.1 h).1.denotes l hl).isRead

/-- The lexemes of a text tile it by longest matches. If it does not split, it is tiled up to the offset
of the error: the text before that offset splits into the lexemes there, what follows is refused for the
fault, and the fault is never a number without a value. -/
theorem lex_tiles (source : String) :
    match lex source with
    | .ok text => Tiles [] 0 source.toList text.lexemes ∧ InOrder text.lexemes
    | .error e => ∃ before after located, source.toList = before ++ after ∧
        e.position = (String.ofList before).utf8ByteSize ∧
        Tiles after 0 source.toList located ∧ InOrder located ∧
        lex (String.ofList before) = .ok ⟨located, e.position⟩ ∧
        Refused after e.fault ∧ ∀ literal, e.fault ≠ .invalidNumber literal := by
  have htiles := tiles_of_lexFrom 0 source.toList
  rw [lex]
  revert htiles
  cases lexFrom 0 source.toList with
  | ok ls => exact fun htiles => ⟨htiles, htiles.inOrder⟩
  | error e =>
    rintro ⟨before, after, ls, hsplit, hposition, htiles, hrefused⟩
    rw [Nat.zero_add, bytes_eq] at hposition
    refine ⟨before, after, ls, hsplit, hposition, htiles, htiles.inOrder, ?_, hrefused,
      hrefused.ne_invalidNumber⟩
    obtain ⟨before', hsplit', htiles'⟩ := htiles.exists_before
    obtain rfl := List.append_cancel_right (hsplit.symm.trans hsplit')
    rw [lex_eq_ok_iff, String.toList_ofList]
    exact ⟨htiles', hposition⟩

end HostExpr
