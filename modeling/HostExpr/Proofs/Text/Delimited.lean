-- SUMMARY: Words, numbers and names of types show where they end.
import HostExpr.Proofs.Decimal.Shortest
import HostExpr.Proofs.Text.Quoted
import HostExpr.Ty
import HostExpr.Host.Method

/-!
# Parts of a text that end where they are seen to

A word ends before what is no part of words, and a number with its suffix before what ends a number. The
names of types end before the sign that closes them if they have no parenthesis, comma or quote in them
(`isPlain`), and a row of them shows each one. From the front of a text that begins with such a part, the
part is known and so is the rest.
-/

namespace HostExpr

open Lexer

variable {rest rest' : List Char}

/-! ## Words and numbers -/

/-- A word shows where it ends. -/
theorem word_append_inj {word word' : String} (h : ∀ c ∈ word.toList, isWordPart c)
    (h' : ∀ c ∈ word'.toList, isWordPart c) (hrest : EndsWord rest) (hrest' : EndsWord rest')
    (heq : word.toList ++ rest = word'.toList ++ rest') : word = word' ∧ rest = rest' := by
  obtain ⟨hchars, hrest⟩ := append_inj_of_class h h' hrest.noPart hrest'.noPart heq
  exact ⟨String.toList_injective hchars, hrest⟩

theorem isWordPart_of_isName {name : String} (h : isName name) : ∀ c ∈ name.toList, isWordPart c := by
  obtain ⟨c, word, hchars, hc, hword⟩ := exists_cons_of_isName h
  rw [hchars]
  exact List.forall_mem_cons.2 ⟨isWordPart_of_isWordStart hc, hword⟩

/-- A name shows where it ends. -/
theorem name_append_inj {name name' : String} (h : isName name) (h' : isName name')
    (hrest : EndsWord rest) (hrest' : EndsWord rest')
    (heq : name.toList ++ rest = name'.toList ++ rest') : name = name' ∧ rest = rest' :=
  word_append_inj (isWordPart_of_isName h) (isWordPart_of_isName h') hrest hrest' heq

namespace NumberKind

/-- A kind is known by its suffix. -/
theorem literalSuffix_injective {kind kind' : NumberKind} {suffix : String}
    (h : kind.literalSuffix = some suffix) (h' : kind'.literalSuffix = some suffix) : kind = kind' :=
  Option.some.inj ((ofSuffix?_literalSuffix h).symm.trans (ofSuffix?_literalSuffix h'))

end NumberKind

/-- Digits with a suffix show where they end, and where the suffix begins. -/
theorem numeral_append_inj {digits digits' suffix suffix' : List Char}
    (h : Decimal.IsNumeral digits) (h' : Decimal.IsNumeral digits')
    (hsuffix : ∀ c ∈ suffix, isWordStart c) (hsuffix' : ∀ c ∈ suffix', isWordStart c)
    (hrest : EndsWord rest) (hrest' : EndsWord rest')
    (heq : digits ++ suffix ++ rest = digits' ++ suffix' ++ rest') :
    digits = digits' ∧ suffix = suffix' ∧ rest = rest' := by
  obtain ⟨c, ds, rfl, -⟩ := h.exists_cons
  obtain ⟨c', ds', rfl, -⟩ := h'.exists_cons
  simp only [List.cons_append] at heq
  obtain ⟨rfl, htails⟩ := List.cons.inj heq
  have hextent := congrArg numberExtent htails
  rw [numberExtent_append h hsuffix hrest, numberExtent_append h' hsuffix' hrest'] at hextent
  obtain ⟨hliteral, hrests⟩ := List.append_inj htails hextent
  have hliteral : c :: ds ++ suffix = c :: ds' ++ suffix' := congrArg (c :: ·) hliteral
  obtain ⟨htake, hdrop⟩ := takeWhile_number h fun d hd => hsuffix d (List.mem_of_mem_head? hd)
  obtain ⟨htake', hdrop'⟩ := takeWhile_number h' fun d hd => hsuffix' d (List.mem_of_mem_head? hd)
  rw [hliteral] at htake hdrop
  exact ⟨htake.symm.trans htake', hdrop.symm.trans hdrop', hrests⟩

/-- The text of a literal shows its value, its kind and where it ends. -/
theorem literal_append_inj {value value' : Float} {kind kind' : NumberKind}
    (hfinite : value.isFinite) (hfinite' : value'.isFinite)
    (hsign : Floating.isNegative (Floating.content value) = false)
    (hsign' : Floating.isNegative (Floating.content value') = false)
    (hsuffix : kind.literalSuffix.isSome) (hsuffix' : kind'.literalSuffix.isSome)
    (hrest : EndsWord rest) (hrest' : EndsWord rest')
    (heq : (Decimal.ofDouble value ++ kind.literalSuffix.getD "").toList ++ rest =
      (Decimal.ofDouble value' ++ kind'.literalSuffix.getD "").toList ++ rest') :
    value = value' ∧ kind = kind' ∧ rest = rest' := by
  obtain ⟨suffix, hsuffix⟩ := Option.isSome_iff_exists.1 hsuffix
  obtain ⟨suffix', hsuffix'⟩ := Option.isSome_iff_exists.1 hsuffix'
  rw [hsuffix, hsuffix', String.toList_append, String.toList_append] at heq
  obtain ⟨hdigits, hletters, hrests⟩ := numeral_append_inj
    (Decimal.isNumeral_ofDouble hfinite hsign) (Decimal.isNumeral_ofDouble hfinite' hsign')
    (NumberKind.isWordStart_of_literalSuffix hsuffix)
    (NumberKind.isWordStart_of_literalSuffix hsuffix') hrest hrest' heq
  cases String.toList_injective hletters
  exact ⟨Decimal.ofDouble_injective hfinite hfinite' hsign hsign' (String.toList_injective hdigits),
    NumberKind.literalSuffix_injective hsuffix hsuffix', hrests⟩

/-! ## Symbols between blanks -/

/-- A symbol in front of a blank shows which one it is. -/
theorem Symbol.append_inj {symbol symbol' : Symbol}
    (heq : symbol.text.toList ++ ' ' :: rest = symbol'.text.toList ++ ' ' :: rest') :
    symbol = symbol' ∧ rest = rest' := by
  have hblank : ∀ (symbol : Symbol) (cs : List Char),
      starting? (symbol.text.toList ++ ' ' :: cs) = some symbol :=
    fun symbol cs => symbol.starting?_append fun _ => .cons (by decide)
  have hstart := (hblank symbol rest).symm.trans ((congrArg starting? heq).trans (hblank symbol' rest'))
  cases hstart
  exact ⟨rfl, (List.cons.inj (List.append_cancel_left heq)).2⟩

/-! ## Rows with commas -/

/-- The characters of texts that come after another one in a row with commas. -/
def afterCommas (texts : List String) : List Char := texts.flatMap fun text => ',' :: ' ' :: text.toList

theorem toList_intercalate_cons (text : String) (texts : List String) :
    (", ".intercalate (text :: texts)).toList = text.toList ++ afterCommas texts := by
  induction texts generalizing text with
  | nil => simp [afterCommas]
  | cons next texts ih =>
    have hnext := ih next
    simp only [String.toList_intercalate, List.map_cons, List.intercalate_cons_cons] at hnext ⊢
    rw [hnext]
    simp [afterCommas]

/-! ## Names of types -/

/-- No parenthesis, comma or quote. -/
def isPlain (c : Char) : Bool := !(['(', ')', ',', '"'].contains c)

theorem isPlain_of_isWordPart {c : Char} (h : isWordPart c) : isPlain c := by
  cases hplain : isPlain c with
  | true => rfl
  | false =>
    exfalso
    revert h
    simp only [isPlain, Bool.not_eq_false', List.contains_eq_mem, List.mem_cons, List.not_mem_nil,
      or_false, decide_eq_true_eq] at hplain
    rcases hplain with rfl | rfl | rfl | rfl <;> decide

/-- The type is shown with plain characters only. -/
def Ty.IsPlain (type : Ty) : Prop := ∀ c ∈ type.text.toList, isPlain c

instance (type : Ty) : Decidable type.IsPlain :=
  decidable_of_iff (type.text.toList.all isPlain) List.all_eq_true

/-- Plain characters in front of one that is not plain show where they end. -/
theorem plain_append_inj {cs cs' : List Char} {d d' : Char} (h : ∀ c ∈ cs, isPlain c)
    (h' : ∀ c ∈ cs', isPlain c) (hd : isPlain d = false) (hd' : isPlain d' = false)
    (heq : cs ++ d :: rest = cs' ++ d' :: rest') : cs = cs' ∧ d = d' ∧ rest = rest' := by
  have hrest : ∀ c ∈ (d :: rest).head?, isPlain c = false := by
    rintro _ ⟨⟩
    exact hd
  have hrest' : ∀ c ∈ (d' :: rest').head?, isPlain c = false := by
    rintro _ ⟨⟩
    exact hd'
  obtain ⟨hcs, hcons⟩ := append_inj_of_class h h' hrest hrest' heq
  exact ⟨hcs, List.cons.inj hcons⟩

/-- The name of a type in front of a closing parenthesis shows where it ends. -/
theorem Ty.append_inj {type type' : Ty} (h : type.IsPlain) (h' : type'.IsPlain)
    (heq : type.text.toList ++ ')' :: rest = type'.text.toList ++ ')' :: rest') :
    type.text = type'.text ∧ rest = rest' := by
  obtain ⟨htext, -, hrest⟩ := plain_append_inj h h' rfl rfl heq
  exact ⟨String.toList_injective htext, hrest⟩

/-- Names of types with commas between them, in front of the bracket that closes them and a parenthesis,
show where each of them ends. -/
theorem Ty.row_append_inj {type type' : Ty} {types types' : List Ty} (h : type.IsPlain)
    (h' : type'.IsPlain) (hall : ∀ type ∈ types, type.IsPlain) (hall' : ∀ type ∈ types', type.IsPlain)
    (heq : type.text.toList ++ (afterCommas (types.map Ty.text) ++ '>' :: '(' :: rest) =
      type'.text.toList ++ (afterCommas (types'.map Ty.text) ++ '>' :: '(' :: rest')) :
    (type :: types).map Ty.text = (type' :: types').map Ty.text ∧ rest = rest' := by
  -- The closing bracket is plain too: it ends the last name, and the parenthesis shows where.
  have hlast : ∀ {type : Ty}, type.IsPlain → ∀ c ∈ type.text.toList ++ ['>'], isPlain c :=
    fun h => List.forall_mem_append.2 ⟨h, List.forall_mem_cons.2 ⟨rfl, nofun⟩⟩
  have hclose : ∀ (type : Ty) (rest : List Char),
      type.text.toList ++ (afterCommas ([].map Ty.text) ++ '>' :: '(' :: rest) =
        type.text.toList ++ ['>'] ++ '(' :: rest := fun type rest => by simp [afterCommas]
  have hcomma : ∀ (type next : Ty) (types : List Ty) (rest : List Char),
      type.text.toList ++ (afterCommas ((next :: types).map Ty.text) ++ '>' :: '(' :: rest) =
        type.text.toList ++ ',' :: ' ' :: (next.text.toList ++
          (afterCommas (types.map Ty.text) ++ '>' :: '(' :: rest)) :=
    fun type next types rest => by simp [afterCommas]
  induction types generalizing type type' types' with
  | nil =>
    cases types' with
    | nil =>
      rw [hclose, hclose] at heq
      obtain ⟨htext, -, hrest⟩ := plain_append_inj (hlast h) (hlast h') rfl rfl heq
      exact ⟨congrArg (· :: []) (String.toList_injective (List.append_cancel_right htext)), hrest⟩
    | cons next' types' =>
      rw [hclose, hcomma] at heq
      obtain ⟨-, hsign, -⟩ := plain_append_inj (hlast h) h' rfl rfl heq
      cases hsign
  | cons next types ih =>
    obtain ⟨hnext, hall⟩ := List.forall_mem_cons.1 hall
    cases types' with
    | nil =>
      rw [hclose, hcomma] at heq
      obtain ⟨-, hsign, -⟩ := plain_append_inj h (hlast h') rfl rfl heq
      cases hsign
    | cons next' types' =>
      obtain ⟨hnext', hall'⟩ := List.forall_mem_cons.1 hall'
      rw [hcomma, hcomma] at heq
      obtain ⟨htext, -, hmore⟩ := plain_append_inj h h' rfl rfl heq
      obtain ⟨htexts, hrest⟩ := ih hnext hnext' hall hall' (List.cons.inj hmore).2
      exact ⟨List.cons_eq_cons.2 ⟨String.toList_injective htext, htexts⟩, hrest⟩

/-- Type arguments in front of a parenthesis. -/
theorem Ty.toList_bracketed (type : Ty) (types : List Ty) (rest : List Char) :
    (Method.bracketed ((type :: types).map Ty.text)).toList ++ '(' :: rest =
      '<' :: (type.text.toList ++ (afterCommas (types.map Ty.text) ++ '>' :: '(' :: rest)) := by
  rw [Method.bracketed, if_neg (by simp)]
  simp only [List.map_cons, String.toList_append, toList_intercalate_cons]
  simp

end HostExpr
