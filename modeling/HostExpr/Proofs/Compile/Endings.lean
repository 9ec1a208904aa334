-- SUMMARY: What may follow a printed expression, and where a parenthesis in front of one is closed.
import HostExpr.Proofs.Compile.Printed
import HostExpr.Proofs.Token.LongestMatch

/-!
# Where printed expressions end

A printed expression is followed by a blank, a comma or a closing bracket (`EndsText`), and the base of one
perhaps by a suffix (`EndsBase`): no word, number or argument list goes on there.

A cast begins with a parenthesis, as an operation does. What is in the parentheses of a cast is plain, and
in those of an operation every parenthesis that is closed was opened before (`StopsOpen`). So the two
differ in what comes after the first parenthesis that is closed: the operand of the cast, or the end.
-/

namespace HostExpr

variable {σ : Type} {s : Session σ} {rest rest' : List Char}

open Lexer

/-! ## What follows an expression -/

/-- What may come after an expression: a blank, a comma or a closing bracket. -/
def EndsText (cs : List Char) : Prop := ∀ c ∈ cs.head?, c ∈ [' ', ')', ']', ',']

/-- What may come after a base: that, or a suffix. -/
structure EndsBase (cs : List Char) : Prop where
  endsWord : EndsWord cs
  head : ∀ c ∈ cs.head?, c ∈ [' ', ')', ']', ',', '.', '[']

/-- No argument list comes after a base. -/
theorem EndsBase.noArguments (h : EndsBase rest) : ∀ c ∈ rest.head?, c ≠ '(' ∧ c ≠ '<' := by
  have hall : [' ', ')', ']', ',', '.', '['].all fun c => c ≠ '(' ∧ c ≠ '<' := by decide
  exact fun c hc => of_decide_eq_true (List.all_eq_true.1 hall c (h.head c hc))

namespace EndsText

theorem nil : EndsText [] := nofun

theorem cons {c : Char} (h : c ∈ [' ', ')', ']', ',']) (cs : List Char) : EndsText (c :: cs) := by
  rintro _ ⟨⟩
  exact h

theorem endsBase (h : EndsText rest) : EndsBase rest := by
  have hhead : [' ', ')', ']', ','] ⊆ [' ', ')', ']', ',', '.', '['] := by simp
  refine ⟨?_, fun c hc => hhead (h c hc)⟩
  cases rest with
  | nil => exact .nil
  | cons c cs =>
    have hc := h c rfl
    simp only [List.mem_cons, List.not_mem_nil, or_false] at hc
    rcases hc with rfl | rfl | rfl | rfl <;> exact .cons (by decide) (by decide)

end EndsText

theorem EndsBase.point {name : String} (h : isName name) (cs : List Char) :
    EndsBase ('.' :: (name.toList ++ cs)) := by
  refine ⟨.point h, ?_⟩
  rintro _ ⟨⟩
  decide

theorem EndsBase.bracket (cs : List Char) : EndsBase ('[' :: cs) := by
  refine ⟨.cons (by decide) (by decide), ?_⟩
  rintro _ ⟨⟩
  decide

/-- What comes after a base with suffixes may come after the base. -/
theorem EndsBase.suffixes {e : Expr σ} {ts : List (Suffix σ)}
    (h : (e.withSuffixes ts).Everywhere s.Prints) (hrest : EndsText rest) :
    EndsBase (ts.flatMap Suffix.chars ++ rest) := by
  cases ts with
  | nil => exact hrest.endsBase
  | cons t ts =>
    have hrow : ((t.on e).withSuffixes ts).Everywhere s.Prints := h
    have hon := hrow.of_withSuffixes.here
    rw [List.flatMap_cons, List.append_assoc]
    cases t with
    | property member => exact .point hon.2.1 _
    | method callee args =>
      simp only [Suffix.chars, List.cons_append, List.append_assoc]
      exact .point hon.2.1 _
    | element index type => exact .bracket _

/-! ## The first characters that are not plain -/

/-- The first character that is not plain, if there is one, is no closing parenthesis. -/
def StopsOpen (cs : List Char) : Prop := ∀ c ∈ (cs.dropWhile isPlain).head?, c ≠ ')'

namespace StopsOpen

theorem plain {cs : List Char} (h : ∀ c ∈ cs, isPlain c) : StopsOpen cs := by
  rw [StopsOpen, List.dropWhile_eq_nil_iff.2 h]
  exact nofun

theorem nil : StopsOpen [] := nofun

theorem stop {c : Char} (hc : isPlain c = false) (hopen : c ≠ ')') : StopsOpen (c :: rest) := by
  rw [StopsOpen, List.dropWhile_cons_of_neg (ne_true_of_eq_false hc)]
  rintro _ ⟨⟩
  exact hopen

theorem append {cs : List Char} (h : StopsOpen cs) (hrest : StopsOpen rest) :
    StopsOpen (cs ++ rest) := by
  rw [StopsOpen, List.dropWhile_append]
  cases hdrop : cs.dropWhile isPlain with
  | nil => exact hrest
  | cons d ds =>
    rintro _ ⟨⟩
    exact h d (by rw [hdrop]; rfl)

theorem cons {c : Char} (hc : isPlain c) (h : StopsOpen rest) : StopsOpen (c :: rest) := by
  rw [StopsOpen, List.dropWhile_cons_of_pos hc]
  exact h

/-- Behind plain characters, a parenthesis is closed where the text stops to be plain. -/
theorem append_inj {cs name : List Char} (h : StopsOpen cs) (hname : ∀ c ∈ name, isPlain c)
    (heq : cs ++ ')' :: rest = name ++ ')' :: rest') : cs = name ∧ rest = rest' := by
  cases hdrop : cs.dropWhile isPlain with
  | nil =>
    obtain ⟨hsame, -, hrests⟩ :=
      plain_append_inj (List.dropWhile_eq_nil_iff.1 hdrop) hname rfl rfl heq
    exact ⟨hsame, hrests⟩
  | cons d ds =>
    -- The first character of `cs` that is not plain would be the parenthesis behind the name.
    have hdrops := congrArg (·.dropWhile isPlain) heq
    have hclose : (')' :: rest').dropWhile isPlain = ')' :: rest' := by
      rw [List.dropWhile_cons_of_neg (by decide)]
    simp only [List.dropWhile_append, hdrop, List.dropWhile_append_of_pos hname, hclose] at hdrops
    exact absurd (List.cons.inj hdrops).1 (h d (by rw [hdrop]; rfl))

theorem name {name : String} (h : isName name) : StopsOpen name.toList :=
  plain fun c hc => isPlain_of_isWordPart (isWordPart_of_isName h c hc)

/-- Type arguments stop at the first comma, or else at the parenthesis behind them. -/
theorem bracketed {types : List Ty} (h : ∀ type ∈ types, type.IsPlain) :
    StopsOpen ((Method.bracketed (types.map Ty.text)).toList ++ '(' :: rest) := by
  cases types with
  | nil => exact .stop (by decide) (by decide)
  | cons type types =>
    obtain ⟨htype, -⟩ := List.forall_mem_cons.1 h
    rw [Ty.toList_bracketed]
    refine .cons (by decide) (.append (.plain htype) ?_)
    cases types with
    | nil => exact .cons (by decide) (.stop (by decide) (by decide))
    | cons next types => exact .stop (by decide) (by decide)

end StopsOpen

/-- The types in the brackets of a printed method are plain. -/
theorem Session.PrintsMethod.plain {ty : Ty} {callee : Method σ} {args : List Ty}
    (h : s.PrintsMethod ty callee args) : ∀ type ∈ callee.typeArgs, type.IsPlain := by
  rcases h with ⟨hnone, -⟩ | ⟨-, hshows, -⟩
  · rw [hnone]
    exact nofun
  · exact fun type htype => (hshows type htype).2

end HostExpr
