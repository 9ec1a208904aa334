-- SUMMARY: The lexemes that an expression is written with.
import HostExpr.Expr.Rendering
import HostExpr.Proofs.Expr.Nodes
import HostExpr.Proofs.Token.Splits

/-!
# Expressions as they are written

`lexemes` lists what the text of an expression is made of. Lexing splits the text into these if every
node is one that can be written (`Expr.Writes`): names are words, texts have an escape that lexing knows,
and literals are finite and not negative, with a suffix of their own.
-/

namespace HostExpr

open Lexer

/-! ## Rows with commas -/

namespace Tokens

/-- Several rows of tokens, with commas between them. -/
def separated : List Tokens → Tokens
  | [] => []
  | [ts] => ts
  | ts :: others => ts ++ .ofSymbol .comma :: separated others

/-- Type arguments between angle brackets, if there are any. -/
def ofTypeArguments (types : List Ty) : Tokens :=
  if types = [] then
    []
  else
    .ofSymbol .less :: separated (types.map fun type => [.ofName type.text]) ++ [.ofSymbol .greater]

end Tokens

namespace Expr

variable {σ : Type}

/-! ## Lexemes -/

/-- The lexemes of an operation of two operands. -/
def operationLexemes (left : Tokens) (op : Symbol) (right : Tokens) : Tokens :=
  .ofSymbol .leftParen :: left ++ .ofSymbol op :: right ++ [.ofSymbol .rightParen]

mutual

/-- The lexemes of the text of an expression. -/
def lexemes : Expr σ → Tokens
  | bool b => [⟨.truth b, Value.boolText b⟩]
  | number value kind => [⟨.number value kind, Decimal.ofDouble value ++ kind.literalSuffix.getD ""⟩]
  | string s => [⟨.string s, Text.quoted s⟩]
  | enum value =>
    [.ofName value.type.name, .ofSymbol .dot, .ofName (value.name?.getD "")]
  | logicalUnary op operand => .ofSymbol op.symbol :: operand.lexemes
  | logical op left right => operationLexemes left.lexemes op.symbol right.lexemes
  | arithmeticUnary op operand _ => .ofSymbol op.symbol :: operand.lexemes
  | arithmetic op left right _ => operationLexemes left.lexemes op.symbol right.lexemes
  | comparison op left right => operationLexemes left.lexemes op.symbol right.lexemes
  | conditional condition left right =>
    .ofSymbol .leftParen :: condition.lexemes ++ .ofSymbol .question :: left.lexemes ++
      .ofSymbol .colon :: right.lexemes ++ [.ofSymbol .rightParen]
  | var name _ | typeName name _ => [.ofName name]
  | castTarget type => [.ofSymbol .leftParen, .ofName type.text, .ofSymbol .rightParen]
  | convert type operand =>
    .ofSymbol .leftParen :: .ofName type.text :: .ofSymbol .rightParen :: operand.lexemes
  | call callee args =>
    .ofName callee.name :: .ofSymbol .leftParen :: Tokens.separated (rows args) ++
      [.ofSymbol .rightParen]
  | property object member => object.lexemes ++ [.ofSymbol .dot, .ofName member.name]
  | method object callee args =>
    object.lexemes ++ .ofSymbol .dot :: .ofName callee.name :: Tokens.ofTypeArguments callee.typeArgs ++
      .ofSymbol .leftParen :: Tokens.separated (rows args) ++ [.ofSymbol .rightParen]
  | element list index _ =>
    list.lexemes ++ .ofSymbol .leftBracket :: index.lexemes ++ [.ofSymbol .rightBracket]

/-- The lexemes of several expressions. -/
def rows : List (Expr σ) → List Tokens
  | [] => []
  | e :: es => e.lexemes :: rows es

end

/-- The node is written with its lexemes: its names are words, its texts need no escape that lexing does
not know, and its numbers are finite, not negative, and read back from their digits and suffix. -/
def Writes : Expr σ → Prop
  | .number value kind =>
    value.isFinite ∧ Floating.isNegative (Floating.content value) = false ∧
      kind.literalSuffix.isSome ∧ (kind = .int → Floating.isIntegral value) ∧
      Decimal.double? (Decimal.ofDouble value).toList = some value
  | .string s => ∀ c ∈ s.toList, Text.isSimple c
  | .enum value =>
    isName value.type.name ∧ ∃ member, value.name? = some member ∧ isName member
  | .logicalUnary op _ => op = .not
  | .arithmeticUnary op _ _ => op = .sub ∨ op = .complement
  | .var name _ | .typeName name _ => isName name
  | .castTarget _ | .convert _ _ => False
  | .call callee _ => isName callee.name
  | .property _ member => isName member.name
  | .method _ callee _ => isName callee.name ∧ ∀ type ∈ callee.typeArgs, isName type.text
  | _ => True

end Expr

/-! ## Writing lexemes -/

/-- In front of what does not go on with a word or a number, the text splits into the lexemes. -/
def WrittenAs (text : String) (ls : Tokens) : Prop :=
  ∀ ⦃cs : List Char⦄ ⦃rest : Tokens⦄, EndsWord cs → Splits cs rest →
    Splits (text.toList ++ cs) (ls ++ rest)

namespace WrittenAs

theorem ofName {name : String} (hname : isName name) : WrittenAs name [.ofName name] :=
  fun _ _ hcs h => .name hname hcs h

/-- A literal is written with its suffix. One without a suffix is an integer and has no point. -/
theorem number {value : Float} {kind : NumberKind} {suffix : String} (hfinite : value.isFinite)
    (hsign : Floating.isNegative (Floating.content value) = false)
    (hsuffix : kind.literalSuffix = some suffix) (hint : kind = .int → Floating.isIntegral value)
    (hread : Decimal.double? (Decimal.ofDouble value).toList = some value) :
    WrittenAs (Decimal.ofDouble value ++ suffix)
      [⟨.number value kind, Decimal.ofDouble value ++ suffix⟩] := by
  intro cs rest hcs h
  have hletters := NumberKind.isWordStart_of_literalSuffix hsuffix
  have hkind : numberKind? (Decimal.ofDouble value).toList suffix.toList = some kind := by
    unfold numberKind?
    rw [if_neg, String.ofList_toList, NumberKind.ofSuffix?_literalSuffix hsuffix]
    rintro ⟨hnone, hpoint⟩
    have hkind : kind = .int := by
      unfold NumberKind.literalSuffix at hsuffix
      split at hsuffix <;> cases hsuffix <;> first | rfl | cases hnone
    have hdigit := Decimal.isDigit_ofDouble (hint hkind) hsign (List.contains_iff_mem.1 hpoint)
    cases hdigit
  have hnumber := Splits.number (Decimal.isNumeral_ofDouble hfinite hsign) hletters hkind hread hcs h
  rw [← String.toList_append, String.ofList_toList] at hnumber
  exact hnumber

theorem operation {left right : String} {ls rs : Tokens} (hleft : WrittenAs left ls) (op : Symbol)
    (hright : WrittenAs right rs) :
    WrittenAs (Expr.operation left op right) (Expr.operationLexemes ls op rs) := by
  intro cs rest hcs h
  have hclose := h.mark .rightParen ')' rfl nofun
  have hright := (hright (.cons (by decide) (by decide)) hclose).blank
  have hop := (hright.symbol op fun _ => .cons (by decide)).blank
  have hleft := hleft (.cons (by decide) (by decide)) hop
  have hopen := hleft.mark .leftParen '(' rfl nofun
  simpa [Expr.operation, Expr.operationLexemes] using hopen

/-- Texts with commas between them are written as rows with commas between them. -/
theorem separated {α : Type} {text : α → String} {row : α → Tokens} {items : List α}
    (h : ∀ item ∈ items, WrittenAs (text item) (row item)) :
    WrittenAs (", ".intercalate (items.map text)) (Tokens.separated (items.map row)) := by
  induction items with
  | nil => exact fun _ _ _ h => h
  | cons item items ih =>
    obtain ⟨hitem, hitems⟩ := List.forall_mem_cons.1 h
    cases items with
    | nil => exact hitem
    | cons next others =>
      intro cs rest hcs hrest
      have hothers := ((ih hitems hcs hrest).blank.mark .comma ',' rfl nofun)
      have hfirst := hitem (.cons (by decide) (by decide)) hothers
      simpa [String.toList_intercalate, List.intercalate_cons_cons, Tokens.separated] using hfirst

/-- Arguments in parentheses. -/
theorem arguments {α : Type} {text : α → String} {row : α → Tokens} {items : List α}
    (h : ∀ item ∈ items, WrittenAs (text item) (row item)) {cs : List Char} {rest : Tokens}
    (hrest : Splits cs rest) :
    Splits ('(' :: ((", ".intercalate (items.map text)).toList ++ ')' :: cs))
      (.ofSymbol .leftParen :: (Tokens.separated (items.map row) ++ .ofSymbol .rightParen :: rest)) := by
  have hclose := hrest.mark .rightParen ')' rfl nofun
  exact (separated h (.cons (by decide) (by decide)) hclose).mark .leftParen '(' rfl nofun

/-- Type arguments in brackets, in front of a parenthesis. -/
theorem typeArguments {types : List Ty} (h : ∀ type ∈ types, isName type.text) {cs : List Char}
    {rest : Tokens} (hrest : Splits ('(' :: cs) rest) :
    Splits ((Method.bracketed (types.map Ty.text)).toList ++ '(' :: cs)
      (Tokens.ofTypeArguments types ++ rest) ∧
      EndsWord ((Method.bracketed (types.map Ty.text)).toList ++ '(' :: cs) := by
  cases types with
  | nil => exact ⟨hrest, .cons (by decide) (by decide)⟩
  | cons type types =>
    have hclose := hrest.mark .greater '>' rfl fun _ => .cons (by decide)
    have hname : ∀ item ∈ type :: types, WrittenAs item.text [.ofName item.text] :=
      fun item hitem => .ofName (h item hitem)
    have hnames := separated hname (.cons (by decide) (by decide)) hclose
    have hstart : EndsSymbol ((", ".intercalate ((type :: types).map Ty.text)).toList ++
        '>' :: '(' :: cs) := by
      have hfirst := h type (List.mem_cons_self ..)
      cases types with
      | nil => exact .name hfirst
      | cons next others =>
        simp only [List.map_cons, String.toList_intercalate, List.intercalate_cons_cons,
          List.append_assoc]
        exact .name hfirst
    have hopen := hnames.mark .less '<' rfl fun _ => hstart
    refine ⟨?_, ?_⟩
    · simpa [Method.bracketed, Tokens.ofTypeArguments] using hopen
    · simp only [Method.bracketed, List.map_cons, reduceCtorEq, if_false, String.toList_append,
        List.append_assoc]
      exact .cons (by decide) (by decide)

end WrittenAs

/-! ## Texts of expressions -/

namespace Expr

variable {σ : Type}

theorem texts_eq_map (es : List (Expr σ)) : texts es = es.map text := by
  induction es with
  | nil => rfl
  | cons e es ih => rw [texts, ih, List.map_cons]

theorem rows_eq_map (es : List (Expr σ)) : rows es = es.map lexemes := by
  induction es with
  | nil => rfl
  | cons e es ih => rw [rows, ih, List.map_cons]

/-- The text of an expression does not make a longer symbol of one in front of it. -/
theorem endsSymbol_text {e : Expr σ} (h : e.Everywhere Writes) (cs : List Char) :
    EndsSymbol (e.text.toList ++ cs) := by
  induction e generalizing cs with
  | bool b =>
    rw [text]
    cases b with
    | true => exact .wordPart (c := 't') (by decide)
    | false => exact .wordPart (c := 'f') (by decide)
  | number value kind =>
    obtain ⟨hfinite, hsign, -⟩ := h.here
    obtain ⟨c, ds, hchars, hc⟩ := (Decimal.isNumeral_ofDouble hfinite hsign).exists_cons
    rw [text, String.toList_append, hchars]
    exact .wordPart (isWordPart_of_isDigit hc)
  | string s =>
    rw [text, Text.quoted, String.toList_ofList]
    exact .cons (by decide)
  | enum value =>
    obtain ⟨hname, member, hmember, -⟩ := h.here
    rw [text, EnumValue.text, hmember, String.toList_append, String.toList_append, List.append_assoc,
      List.append_assoc]
    exact .name hname
  | logicalUnary op operand =>
    obtain rfl : op = .not := h.here
    rw [text, String.toList_append, List.append_assoc]
    exact .cons (by decide)
  | arithmeticUnary op operand type =>
    rw [text, String.toList_append, List.append_assoc]
    rcases (h.here : op = .sub ∨ op = .complement) with rfl | rfl <;> exact .cons (by decide)
  | logical | arithmetic | comparison =>
    simp only [text, operation, String.toList_append, List.append_assoc]
    exact .cons (by decide)
  | conditional =>
    simp only [text, String.toList_append, List.append_assoc]
    exact .cons (by decide)
  | var name _ | typeName name _ =>
    rw [text]
    exact .name h.here
  | castTarget | convert => exact h.here.elim
  | call callee args =>
    simp only [text, String.toList_append, List.append_assoc]
    exact .name h.here
  | property object _ ih | method object _ _ ih _ | element object _ _ ih _ =>
    simp only [text, String.toList_append, List.append_assoc]
    exact ih (h.child (List.mem_cons_self ..)) _

/-- The text of an expression is written with its lexemes. -/
theorem writtenAs_text {e : Expr σ} (h : e.Everywhere Writes) : WrittenAs e.text e.lexemes := by
  induction e with
  | bool b =>
    intro cs rest hcs hrest
    exact .truth b hcs hrest
  | number value kind =>
    obtain ⟨hfinite, hsign, hsuffix, hint, hread⟩ := h.here
    obtain ⟨suffix, hsuffix⟩ := Option.isSome_iff_exists.1 hsuffix
    rw [text, lexemes, hsuffix]
    exact .number hfinite hsign hsuffix hint hread
  | string s =>
    intro cs rest _ hrest
    exact .string h.here hrest
  | enum value =>
    intro cs rest hcs hrest
    obtain ⟨hname, member, hmember, hmemberName⟩ := h.here
    have hpoint := (Splits.name hmemberName hcs hrest).mark .dot '.' rfl nofun
    have hall := Splits.name hname (.point hmemberName) hpoint
    simpa [text, lexemes, EnumValue.text, hmember] using hall
  | logicalUnary op operand ih =>
    intro cs rest hcs hrest
    have hchild := h.child (List.mem_cons_self ..)
    have hall := (ih hchild hcs hrest).symbol op.symbol fun _ => endsSymbol_text hchild cs
    simpa [text, lexemes] using hall
  | arithmeticUnary op operand type ih =>
    intro cs rest hcs hrest
    have hchild := h.child (List.mem_cons_self ..)
    have hall := (ih hchild hcs hrest).symbol op.symbol fun _ => endsSymbol_text hchild cs
    simpa [text, lexemes] using hall
  | logical op left right ihl ihr | arithmetic op left right _ ihl ihr
  | comparison op left right ihl ihr =>
    rw [text, lexemes]
    exact .operation (ihl (h.first rfl)) _ (ihr (h.second rfl))
  | conditional condition left right ihc ihl ihr =>
    intro cs rest _ hrest
    have hclose := hrest.mark .rightParen ')' rfl nofun
    have hright := ihr (h.third rfl) (.cons (by decide) (by decide)) hclose
    have hcolon := (hright.blank.mark .colon ':' rfl nofun).blank
    have hleft := ihl (h.second rfl) (.cons (by decide) (by decide)) hcolon
    have hquestion := (hleft.blank.mark .question '?' rfl nofun).blank
    have hcondition := ihc (h.first rfl) (.cons (by decide) (by decide)) hquestion
    have hall := hcondition.mark .leftParen '(' rfl nofun
    simpa [text, lexemes] using hall
  | var name _ | typeName name _ =>
    rw [text, lexemes]
    exact .ofName h.here
  | castTarget | convert => exact h.here.elim
  | call callee args ih =>
    intro cs rest hcs hrest
    have hargs := WrittenAs.arguments (fun arg harg => ih arg harg (h.child harg)) hrest
    have hall := Splits.name h.here (.cons (by decide) (by decide)) hargs
    simpa [text, lexemes, texts_eq_map, rows_eq_map] using hall
  | property object member ih =>
    intro cs rest hcs hrest
    have hname : isName member.name := h.here
    have hpoint := (Splits.name hname hcs hrest).mark .dot '.' rfl nofun
    have hall := ih (h.first rfl) (.point hname) hpoint
    simpa [text, lexemes] using hall
  | method object callee args ih ihs =>
    intro cs rest hcs hrest
    obtain ⟨hname, htypes⟩ := h.here
    have hargs := WrittenAs.arguments
      (fun arg harg => ihs arg harg (h.child (by simp [children, harg]))) hrest
    obtain ⟨htypeArgs, hends⟩ := WrittenAs.typeArguments htypes hargs
    have hpoint := (Splits.name hname hends htypeArgs).mark .dot '.' rfl nofun
    have hall := ih (h.first rfl) (.point hname) hpoint
    simpa [text, lexemes, texts_eq_map, rows_eq_map] using hall
  | element list index type ihl ihi =>
    intro cs rest hcs hrest
    have hclose := hrest.mark .rightBracket ']' rfl nofun
    have hindex := ihi (h.second rfl) (.cons (by decide) (by decide)) hclose
    have hopen := hindex.mark .leftBracket '[' rfl nofun
    have hall := ihl (h.first rfl) (.cons (by decide) (by decide)) hopen
    simpa [text, lexemes] using hall

end Expr

end HostExpr
