-- SUMMARY: Compiled trees with the same text are the same tree.
import HostExpr.Proofs.Compile.Endings
import HostExpr.Proofs.Names

/-!
# The text of a tree tells it apart

Two trees of one session that are shown with the same text are the same tree, provided that no suffix
stands behind an operator or a cast: both are printed without parentheses, so that a suffix behind one
looks as if it stood behind the operand (`Expr.text_on_of_front`).

A text is read from the front. In front of what may follow an expression (`EndsText`), the text of one
shows which expression it is and where it ends (`Session.Tells`); this is shown for a tree from the trees
below it.
-/

namespace HostExpr

variable {σ : Type} {s : Session σ} {rest rest' : List Char}

open Lexer

/-! ## Expressions that are told apart -/

namespace Session

/-- In front of what may follow an expression, the text shows which expression it is and where it ends. -/
def Tells (s : Session σ) (e : Expr σ) : Prop :=
  ∀ ⦃e' : Expr σ⦄ ⦃rest rest' : List Char⦄, e'.Everywhere s.Prints → EndsText rest → EndsText rest' →
    e.text.toList ++ rest = e'.text.toList ++ rest' → e = e' ∧ rest = rest'

/-- No expression begins with a closing parenthesis. -/
theorem exists_text_cons {e : Expr σ} (h : e.Everywhere s.Prints) :
    ∃ c cs, e.text.toList = c :: cs ∧ c ≠ ')' := by
  obtain ⟨lead, hfront⟩ := exists_front h
  obtain ⟨c, cs, hchars, hlead⟩ := hfront.exists_cons
  refine ⟨c, cs, hchars, ?_⟩
  rintro rfl
  cases hlead

theorem endsText_afterCommas (texts : List String) (rest : List Char) :
    EndsText (afterCommas texts ++ ')' :: rest) := by
  cases texts with
  | nil => exact .cons (by decide) _
  | cons text texts => exact .cons (by decide) _

/-- A row of arguments is told apart if each of them is. -/
theorem row_append_inj {arg arg' : Expr σ} {args args' : List (Expr σ)}
    (htells : ∀ e ∈ arg :: args, s.Tells e) (h' : ∀ e ∈ arg' :: args', e.Everywhere s.Prints)
    (heq : arg.text.toList ++ (afterCommas (args.map Expr.text) ++ ')' :: rest) =
      arg'.text.toList ++ (afterCommas (args'.map Expr.text) ++ ')' :: rest')) :
    arg :: args = arg' :: args' ∧ rest = rest' := by
  induction args generalizing arg arg' args' with
  | nil =>
    obtain ⟨htell, -⟩ := List.forall_mem_cons.1 htells
    obtain ⟨harg', -⟩ := List.forall_mem_cons.1 h'
    obtain ⟨rfl, htail⟩ := htell harg' (endsText_afterCommas _ _) (endsText_afterCommas _ _) heq
    cases args' with
    | nil => exact ⟨rfl, (List.cons.inj htail).2⟩
    | cons next' args' => cases (List.cons.inj htail).1
  | cons next args ih =>
    obtain ⟨htell, htells⟩ := List.forall_mem_cons.1 htells
    obtain ⟨harg', hargs'⟩ := List.forall_mem_cons.1 h'
    obtain ⟨rfl, htail⟩ := htell harg' (endsText_afterCommas _ _) (endsText_afterCommas _ _) heq
    cases args' with
    | nil => cases (List.cons.inj htail).1
    | cons next' args' =>
      simp only [List.map_cons, afterCommas, List.flatMap_cons, List.cons_append, List.append_assoc,
        List.cons.injEq, true_and] at htail
      obtain ⟨hargs, hrest⟩ := ih htells hargs' htail
      exact ⟨congrArg (arg :: ·) hargs, hrest⟩

/-- Arguments in front of the parenthesis that closes them are told apart if each of them is. -/
theorem arguments_append_inj {args args' : List (Expr σ)}
    (htells : ∀ e ∈ args, s.Tells e) (h : ∀ e ∈ args, e.Everywhere s.Prints)
    (h' : ∀ e ∈ args', e.Everywhere s.Prints)
    (heq : (", ".intercalate (args.map Expr.text)).toList ++ ')' :: rest =
      (", ".intercalate (args'.map Expr.text)).toList ++ ')' :: rest') :
    args = args' ∧ rest = rest' := by
  -- Without arguments the parenthesis comes first, and no argument begins with one.
  have hnone : ∀ {arg : Expr σ} {args : List (Expr σ)} {rest rest' : List Char},
      arg.Everywhere s.Prints →
      ')' :: rest ≠ (", ".intercalate ((arg :: args).map Expr.text)).toList ++ ')' :: rest' := by
    intro arg args rest rest' harg hclose
    obtain ⟨c, cs, hchars, hc⟩ := exists_text_cons harg
    rw [List.map_cons, toList_intercalate_cons, hchars] at hclose
    exact hc (List.cons.inj hclose).1.symm
  cases args with
  | nil =>
    cases args' with
    | nil => exact ⟨rfl, (List.cons.inj heq).2⟩
    | cons arg' args' => exact absurd heq (hnone (h' _ (List.mem_cons_self ..)))
  | cons arg args =>
    cases args' with
    | nil => exact absurd heq.symm (hnone (h _ (List.mem_cons_self ..)))
    | cons arg' args' =>
      rw [List.map_cons, List.map_cons, toList_intercalate_cons, toList_intercalate_cons,
        List.append_assoc, List.append_assoc] at heq
      exact row_append_inj htells h' heq

/-! ## Bases -/

/-- Operations in parentheses are told apart if their operands are. -/
theorem group_append_inj {e e' first first' second second' : Expr σ} {symbol symbol' : Symbol}
    {last last' : List Char} (h : e.IsGroup first symbol second last)
    (h' : e'.IsGroup first' symbol' second' last') (htells : ∀ child ∈ e.children, s.Tells child)
    (hchildren : ∀ child ∈ e'.children, child.Everywhere s.Prints)
    (heq : e.text.toList ++ rest = e'.text.toList ++ rest') : e = e' ∧ rest = rest' := by
  have hlast : ∀ {e first second : Expr σ} {symbol : Symbol} {last rest : List Char},
      e.IsGroup first symbol second last → EndsText (last ++ rest) := by
    intro e first second symbol last rest h
    cases h <;> exact .cons (by decide) _
  rw [h.toList_text, h'.toList_text] at heq
  simp only [List.cons_append, List.append_assoc, List.cons.injEq, true_and] at heq
  obtain ⟨hfirst, hsecond⟩ := h.children
  obtain ⟨hfirst', hsecond'⟩ := h'.children
  obtain ⟨rfl, hsymbols⟩ := htells first hfirst (hchildren first' hfirst') (.cons (by decide) _)
    (.cons (by decide) _) heq
  obtain ⟨rfl, hseconds⟩ := Symbol.append_inj (List.cons.inj hsymbols).2
  obtain ⟨rfl, hend⟩ := htells second hsecond (hchildren second' hsecond') (hlast h) (hlast h')
    hseconds
  cases h with
  | operation op left right =>
    generalize hsymbol : op.symbol = symbol at h'
    cases h' with
    | operation op' left right =>
      cases BinaryOp.symbol_injective hsymbol
      exact ⟨rfl, (List.cons.inj hend).2⟩
    | conditional => exact absurd hsymbol op.symbol_ne_question
  | conditional condition left right =>
    generalize hsymbol : Symbol.question = symbol at h'
    cases h' with
    | operation op' left right => exact absurd hsymbol.symm op'.symbol_ne_question
    | conditional condition left right' =>
      simp only [List.cons_append, List.append_assoc, List.cons.injEq, true_and] at hend
      obtain ⟨rfl, hrest⟩ := htells right (by simp [Expr.children])
        (hchildren right' (by simp [Expr.children])) (.cons (by decide) _) (.cons (by decide) _) hend
      exact ⟨rfl, (List.cons.inj hrest).2⟩

/-- The word that an expression begins with ends where other characters come. -/
theorem BeginsWith.endsWord {e : Expr σ} {word : String} {after : List Char}
    (h : s.BeginsWith e word after) (hrest : EndsBase rest) :
    (∀ c ∈ word.toList, isWordPart c) ∧ EndsWord (after ++ rest) := by
  cases h with
  | bool b =>
    have hparts : ∀ b, (Value.boolText b).toList.all isWordPart := by decide
    exact ⟨List.all_eq_true.1 (hparts b), hrest.endsWord⟩
  | name hname => exact ⟨isWordPart_of_isName hname, hrest.endsWord⟩
  | enum _ henum hname =>
    have hmember := henum.memberNames _ (EnumType.mem_of_nameOf? hname)
    exact ⟨isWordPart_of_isName henum.isName, .point hmember⟩
  | call hname => exact ⟨isWordPart_of_isName hname, .cons (by decide) (by decide)⟩

/-- No name is the text of a truth value. -/
theorem ne_boolText_of_isName {name : String} (h : isName name) (b : Bool) :
    Value.boolText b ≠ name := by
  rintro rfl
  cases b <;> revert h <;> decide

theorem boolText_injective {b b' : Bool} (h : Value.boolText b = Value.boolText b') : b = b' := by
  revert b b'
  decide

/-- What begins with a word is told apart if the arguments in it are. -/
theorem word_append_inj (happart : s.TypesApart) {e e' : Expr σ}
    {word word' : String} {after after' : List Char} (h : s.BeginsWith e word after)
    (h' : s.BeginsWith e' word' after') (htells : ∀ child ∈ e.children, s.Tells child)
    (hprints : ∀ child ∈ e.children, child.Everywhere s.Prints)
    (hprints' : ∀ child ∈ e'.children, child.Everywhere s.Prints)
    (hrest : EndsBase rest) (hrest' : EndsBase rest')
    (heq : e.text.toList ++ rest = e'.text.toList ++ rest') : e = e' ∧ rest = rest' := by
  rw [h.toList_text, h'.toList_text, List.append_assoc, List.append_assoc] at heq
  obtain ⟨hword, hafter⟩ := h.endsWord hrest
  obtain ⟨hword', hafter'⟩ := h'.endsWord hrest'
  obtain ⟨hsame, hends⟩ := HostExpr.word_append_inj hword hword' hafter hafter' heq
  cases h with
  | bool b =>
    cases h' with
    | bool b' =>
      cases boolText_injective hsame
      exact ⟨rfl, hends⟩
    | name hname => exact absurd hsame (ne_boolText_of_isName hname b)
    | enum _ henum => exact absurd hsame (ne_boolText_of_isName henum.isName b)
    | call hname => exact absurd hsame (ne_boolText_of_isName hname b)
  | name hname hmeans =>
    cases h' with
    | bool b' => exact absurd hsame.symm (ne_boolText_of_isName hname b')
    | name _ hmeans' =>
      cases hsame
      exact ⟨hmeans.unique hmeans', hends⟩
    | enum _ henum => exact absurd (hsame ▸ hmeans) henum.not_means
    | call => exact absurd rfl (hrest.noArguments '(' (by rw [← List.nil_append rest, hends]; rfl)).1
  | @enum value member hknows henum hmember =>
    cases h' with
    | bool b' => exact absurd hsame.symm (ne_boolText_of_isName henum.isName b')
    | name _ hmeans => exact absurd (hsame ▸ hmeans) henum.not_means
    | @enum value' member' hknows' henum' hmember' =>
      obtain ⟨type, value⟩ := value
      obtain ⟨type', value'⟩ := value'
      cases happart _ _ hknows hknows' hsame
      have hmem := EnumType.mem_of_nameOf? hmember
      have hmem' := EnumType.mem_of_nameOf? hmember'
      have hname := henum.memberNames _ hmem
      have hname' := henum.memberNames _ hmem'
      obtain ⟨rfl, hrests⟩ := name_append_inj hname hname' hrest.endsWord hrest'.endsWord
        (List.cons.inj hends).2
      cases EnumType.eq_of_mem henum.distinct hmem hmem'
      exact ⟨rfl, hrests⟩
    | call => cases (List.cons.inj hends).1
  | call hname hcallee =>
    cases h' with
    | bool b' => exact absurd hsame.symm (ne_boolText_of_isName hname b')
    | name =>
      exact absurd rfl (hrest'.noArguments '(' (by rw [← List.nil_append rest', ← hends]; rfl)).1
    | enum => cases (List.cons.inj hends).1
    | call _ hcallee' =>
      rw [hsame, hcallee'] at hcallee
      cases hcallee
      simp only [List.cons_append, List.append_assoc, List.nil_append, List.cons.injEq, true_and]
        at hends
      obtain ⟨rfl, hrests⟩ := arguments_append_inj htells hprints hprints' hends
      exact ⟨rfl, hrests⟩

/-- Bases of one form are told apart if the expressions in them are. -/
theorem Form.append_inj (happart : s.TypesApart) {base base' : Expr σ}
    {lead : Lead} (h : s.Form base lead) (h' : s.Form base' lead)
    (htells : ∀ child ∈ base.children, s.Tells child)
    (hprints : ∀ child ∈ base.children, child.Everywhere s.Prints)
    (hprints' : ∀ child ∈ base'.children, child.Everywhere s.Prints)
    (hrest : EndsBase rest) (hrest' : EndsBase rest')
    (heq : base.text.toList ++ rest = base'.text.toList ++ rest') : base = base' ∧ rest = rest' := by
  cases h with
  | string text =>
    cases h' with
    | string text' =>
      rw [Expr.text, Expr.text] at heq
      obtain ⟨rfl, hrests⟩ := Text.quoted_append_inj heq
      exact ⟨rfl, hrests⟩
  | number hfinite hsign hsuffix =>
    cases h' with
    | number hfinite' hsign' hsuffix' =>
      rw [Expr.text, Expr.text] at heq
      obtain ⟨rfl, rfl, hrests⟩ := literal_append_inj hfinite hfinite' hsign hsign' hsuffix hsuffix'
        hrest.endsWord hrest'.endsWord heq
      exact ⟨rfl, hrests⟩
  | group hgroup =>
    cases h' with
    | group hgroup' => exact group_append_inj hgroup hgroup' htells hprints' heq
  | word hbegins =>
    cases h' with
    | word hbegins' =>
      exact word_append_inj happart hbegins hbegins' htells hprints hprints' hrest hrest' heq

/-! ## Suffixes -/

/-- Types of the session are the same if their names are. -/
theorem TypesApart.eq_of_texts (happart : s.TypesApart) {types types' : List Ty}
    (h : ∀ type ∈ types, s.ShowsType type) (h' : ∀ type ∈ types', s.ShowsType type)
    (htexts : types.map Ty.text = types'.map Ty.text) : types = types' := by
  induction types generalizing types' with
  | nil => exact (List.map_eq_nil_iff.1 htexts.symm).symm
  | cons type types ih =>
    cases types' with
    | nil => cases htexts
    | cons type' types' =>
      obtain ⟨htype, htypes⟩ := List.forall_mem_cons.1 h
      obtain ⟨htype', htypes'⟩ := List.forall_mem_cons.1 h'
      obtain ⟨htext, htexts⟩ := List.cons.inj htexts
      rw [happart type type' htype.1 htype'.1 htext, ih htypes htypes' htexts]

/-- A method is known from its name, its type arguments and the types of its arguments. -/
theorem PrintsMethod.unique (happart : s.TypesApart) {ty : Ty} {callee callee' : Method σ}
    {args : List Ty} (h : s.PrintsMethod ty callee args) (h' : s.PrintsMethod ty callee' args)
    (hname : callee.name = callee'.name)
    (htexts : callee.typeArgs.map Ty.text = callee'.typeArgs.map Ty.text) : callee = callee' := by
  rcases h with ⟨hnone, hfound⟩ | ⟨hsome, hshows, pattern, hpattern, hfound⟩ <;>
    rcases h' with ⟨hnone', hfound'⟩ | ⟨hsome', hshows', pattern', hpattern', hfound'⟩
  · rw [hname, hfound'] at hfound
    cases hfound
    rfl
  · rw [hnone] at htexts
    exact absurd (List.map_eq_nil_iff.1 htexts.symm) hsome'
  · rw [hnone'] at htexts
    exact absurd (List.map_eq_nil_iff.1 htexts) hsome
  · have htypeArgs := happart.eq_of_texts hshows hshows' htexts
    rw [hname, htypeArgs, hfound'] at hfound
    cases hfound
    rw [hpattern, hpattern', htypeArgs]

/-- The type of points. -/
def point : Ty := .object "Point"

end Session

end HostExpr
