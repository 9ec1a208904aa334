-- SUMMARY: The nodes of compiled trees, sorted by what their texts begin with.
import HostExpr.Proofs.Compile.RoundTrip
import HostExpr.Proofs.Expr.Suffixes
import HostExpr.Proofs.Text.Delimited

/-!
# Nodes as they are printed

`Session.Prints` says what a text shows of a single node: the names and literals in it are ones that show
where they end, and everything else about the node follows from its parts and the session. Every node of a
compiled tree is so, if the session shows its types with names that can be told from what is around them
(`Session.ShowsTypes`).

The nodes then fall into the forms that a reader sees from the front of a text: an operator, a cast, or a
base with suffixes, and the base is a quoted text, a number, an operation in parentheses or begins with a
word.
-/

namespace HostExpr

variable {σ : Type} {s : Session σ}

/-! ## Names of types -/

namespace Session

/-- A name in the session leads to the type, be it as that of a variable. -/
def Knows (s : Session σ) (type : Ty) : Prop :=
  ∃ name, s.vars.find? name = some type ∨ s.types.find? name = some type

/-- Different types have different display names. -/
def TypesApart (s : Session σ) : Prop :=
  ∀ type other, s.Knows type → s.Knows other → type.text = other.text → type = other

/-- The enumeration is shown with a word that means nothing else, and its members with a word each. -/
structure ShowsEnum (s : Session σ) (enum : EnumType) : Prop where
  isName : isName enum.name
  noVar : s.vars.find? enum.name = none
  noOther : ∀ type, s.types.find? enum.name = some type → type = .enum enum
  memberNames : ∀ member ∈ enum.members, HostExpr.isName member.1
  distinct : (enum.members.map (·.1)).Nodup

/-- The type has a name in the session, and its display name has no parenthesis, comma or quote in it. -/
def ShowsType (s : Session σ) (type : Ty) : Prop := s.Knows type ∧ type.IsPlain

/-- A call under the name of the method, with the type arguments that it holds, means the method. -/
def PrintsMethod (s : Session σ) (ty : Ty) (callee : Method σ) (args : List Ty) : Prop :=
  callee.typeArgs = [] ∧
      (Overload.resolve s.catalog s.helpers ty callee.name args).value = .ok callee ∨
    callee.typeArgs ≠ [] ∧ (∀ type ∈ callee.typeArgs, s.ShowsType type) ∧
      ∃ pattern, callee = pattern.instantiate callee.typeArgs ∧
        (Overload.resolveGeneric s.catalog ty callee.name callee.typeArgs args).value = .ok pattern

/-- The node is known from its text, once its parts are. -/
def Prints (s : Session σ) : Expr σ → Prop
  | .bool _ | .string _ | .comparison _ _ _ | .conditional _ _ _ => True
  | .number value kind =>
    value.isFinite ∧ Floating.isNegative (Floating.content value) = false ∧
      kind.literalSuffix.isSome
  | .enum value =>
    s.Knows (.enum value.type) ∧ s.ShowsEnum value.type ∧ ∃ member, value.name? = some member
  | .logicalUnary op _ => op = .not
  | .logical op _ _ => op ≠ .not
  | .arithmeticUnary op operand type => (op = .sub ∨ op = .complement) ∧ type = operand.type
  | .arithmetic op left right type => op ≠ .complement ∧ type = left.type.promote right.type
  | .var name type => isName name ∧ s.vars.find? name = some type
  | .typeName name type =>
    isName name ∧ s.vars.find? name = none ∧ s.types.find? name = some type ∧
      ∀ enum, type ≠ .enum enum
  | .castTarget _ => False
  | .convert type _ => s.ShowsType type
  | .call callee _ => isName callee.name ∧ s.functions.find? callee.name = some callee
  | .property object member =>
    object.isPrefixed = false ∧ isName member.name ∧
      ∃ others, s.catalog.members object.type member.name = member :: others
  | .method object callee args =>
    object.isPrefixed = false ∧ isName callee.name ∧
      s.PrintsMethod object.type callee (args.map Expr.type)
  | .element list _ type => list.isPrefixed = false ∧ list.type = .list type

theorem Prints.groupsSuffixes {e : Expr σ} (h : s.Prints e) : e.GroupsSuffixes := by
  cases e <;> first | trivial | exact h.1

end Session

/-- What the first character of a text says about the form of the expression. -/
inductive Lead where
  | sign
  | parenthesis
  | quote
  | digit
  | word

/-- The form that begins with a character, if one does. -/
def leadOf? (c : Char) : Option Lead :=
  if Decimal.isDigit c then
    some .digit
  else if Lexer.isWordStart c then
    some .word
  else
    match c with
    | '!' | '-' | '~' => some .sign
    | '(' => some .parenthesis
    | '"' => some .quote
    | _ => none

theorem leadOf?_of_isDigit {c : Char} (h : Decimal.isDigit c) : leadOf? c = some .digit := if_pos h

theorem leadOf?_of_isWordStart {c : Char} (h : Lexer.isWordStart c) : leadOf? c = some .word := by
  unfold leadOf?
  rw [if_neg (ne_true_of_eq_false (Lexer.isDigit_eq_false h)), if_pos h]

theorem UnaryOp.text_apply (op : UnaryOp) (operand : Expr σ) :
    (op.apply operand).text = op.symbol.text ++ operand.text := by
  cases op with
  | not => rw [apply, Expr.text, symbol, LogicalOp.symbol]
  | arithmetic op => rw [apply, Expr.unary, Expr.text, symbol]

/-- An operator before an operand is one character. -/
theorem UnaryOp.exists_char {op : UnaryOp} (h : op ∈ all) :
    ∃ c, op.symbol.text.toList = [c] ∧ leadOf? c = some .sign := by
  simp only [all, List.mem_cons, List.not_mem_nil, or_false] at h
  rcases h with rfl | rfl | rfl
  · exact ⟨'-', rfl, rfl⟩
  · exact ⟨'~', rfl, rfl⟩
  · exact ⟨'!', rfl, rfl⟩

/-- An operation in parentheses: its first operand, the symbol after that, the second operand, and the
characters that come last. -/
inductive Expr.IsGroup : Expr σ → Expr σ → Symbol → Expr σ → List Char → Prop
  | operation (op : BinaryOp) (left right : Expr σ) :
      IsGroup (op.combine left right) left op.symbol right [')']
  | conditional (condition left right : Expr σ) :
      IsGroup (.conditional condition left right) condition .question left
        (' ' :: ':' :: ' ' :: (right.text.toList ++ [')']))

theorem Expr.IsGroup.toList_text {e first second : Expr σ} {symbol : Symbol} {last : List Char}
    (h : e.IsGroup first symbol second last) :
    e.text.toList = '(' :: (first.text.toList ++ ' ' :: (symbol.text.toList ++ ' ' ::
      (second.text.toList ++ last))) := by
  cases h with
  | operation op left right =>
    cases op <;> simp [BinaryOp.combine, Expr.binary, Expr.text, Expr.operation, BinaryOp.symbol]
  | conditional condition left right => simp [Expr.text, Symbol.text]

theorem Expr.IsGroup.children {e first second : Expr σ} {symbol : Symbol} {last : List Char}
    (h : e.IsGroup first symbol second last) : first ∈ e.children ∧ second ∈ e.children := by
  cases h with
  | operation op left right =>
    rw [op.children_combine]
    simp
  | conditional condition left right => simp [Expr.children]

namespace Session

/-- A name that is not called means the expression. -/
inductive Means (s : Session σ) (name : String) : Expr σ → Prop
  | var {type : Ty} : s.vars.find? name = some type → Means s name (.var name type)
  | typeName {type : Ty} : s.vars.find? name = none → s.types.find? name = some type →
      (∀ enum, type ≠ .enum enum) → Means s name (.typeName name type)

theorem Means.unique {name : String} {e e' : Expr σ} (h : s.Means name e) (h' : s.Means name e') :
    e = e' := by
  cases h with
  | var hvar =>
    cases h' with
    | var hvar' =>
      cases hvar.symm.trans hvar'
      rfl
    | typeName hnone => cases hvar.symm.trans hnone
  | typeName hnone htype =>
    cases h' with
    | var hvar => cases hvar.symm.trans hnone
    | typeName _ htype' =>
      cases htype.symm.trans htype'
      rfl

/-- The display name of an enumeration means nothing on its own. -/
theorem ShowsEnum.not_means {enum : EnumType} (h : s.ShowsEnum enum) {e : Expr σ} :
    ¬ s.Means enum.name e := by
  intro hmeans
  cases hmeans with
  | var hvar => cases hvar.symm.trans h.noVar
  | typeName _ htype henum => exact henum enum (h.noOther _ htype)

theorem Means.toList_text {name : String} {e : Expr σ} (h : s.Means name e) : e.text = name := by
  cases h <;> rw [Expr.text]

/-- The expression begins with the word, and the characters come after that. -/
inductive BeginsWith (s : Session σ) : Expr σ → String → List Char → Prop
  | bool (b : Bool) : BeginsWith s (.bool b) (Value.boolText b) []
  | name {name : String} {e : Expr σ} : isName name → s.Means name e → BeginsWith s e name []
  | enum {value : EnumValue} {member : String} : s.Knows (.enum value.type) →
      s.ShowsEnum value.type → value.name? = some member →
      BeginsWith s (.enum value) value.type.name ('.' :: member.toList)
  | call {callee : HostFunction σ} {args : List (Expr σ)} : isName callee.name →
      s.functions.find? callee.name = some callee →
      BeginsWith s (.call callee args) callee.name
        ('(' :: ((", ".intercalate (args.map Expr.text)).toList ++ [')']))

theorem BeginsWith.toList_text {e : Expr σ} {word : String} {after : List Char}
    (h : s.BeginsWith e word after) : e.text.toList = word.toList ++ after := by
  cases h with
  | bool b => simp [Expr.text]
  | name _ hmeans => simp [hmeans.toList_text]
  | enum _ _ hname => simp [Expr.text, EnumValue.text, hname]
  | call => simp [Expr.text, Expr.texts_eq_map]

/-- The form of a base. -/
inductive Form (s : Session σ) : Expr σ → Lead → Prop
  | string (text : String) : Form s (.string text) .quote
  | number {value : Float} {kind : NumberKind} : value.isFinite →
      Floating.isNegative (Floating.content value) = false → kind.literalSuffix.isSome →
      Form s (.number value kind) .digit
  | group {e first second : Expr σ} {symbol : Symbol} {last : List Char} :
      e.IsGroup first symbol second last → Form s e .parenthesis
  | word {e : Expr σ} {word : String} {after : List Char} : s.BeginsWith e word after →
      Form s e .word

theorem isWordStart_boolText (b : Bool) :
    ∃ c cs, (Value.boolText b).toList = c :: cs ∧ Lexer.isWordStart c := by
  cases b with
  | true => exact ⟨'t', ['r', 'u', 'e'], by decide, by decide⟩
  | false => exact ⟨'f', ['a', 'l', 's', 'e'], by decide, by decide⟩

theorem Form.exists_cons {base : Expr σ} {lead : Lead} (h : s.Form base lead) :
    ∃ c cs, base.text.toList = c :: cs ∧ leadOf? c = some lead := by
  cases h with
  | string text =>
    rw [Expr.text, Text.quoted, String.toList_ofList, List.cons_append]
    exact ⟨'"', _, rfl, rfl⟩
  | number hfinite hsign hsuffix =>
    obtain ⟨c, ds, hchars, hc⟩ := (Decimal.isNumeral_ofDouble hfinite hsign).exists_cons
    rw [Expr.text, String.toList_append, hchars, List.cons_append]
    exact ⟨c, _, rfl, leadOf?_of_isDigit hc⟩
  | group hgroup => exact ⟨'(', _, hgroup.toList_text, rfl⟩
  | @word e word after hbegins =>
    have hword : ∃ c cs, word.toList = c :: cs ∧ Lexer.isWordStart c := by
      have hname : isName word → ∃ c cs, word.toList = c :: cs ∧ Lexer.isWordStart c := fun h => by
        obtain ⟨c, cs, hchars, hc, -⟩ := exists_cons_of_isName h
        exact ⟨c, cs, hchars, hc⟩
      cases hbegins with
      | bool b => exact isWordStart_boolText b
      | name h => exact hname h
      | enum _ h => exact hname h.isName
      | call h => exact hname h
    obtain ⟨c, cs, hchars, hc⟩ := hword
    rw [hbegins.toList_text, hchars, List.cons_append]
    exact ⟨c, _, rfl, leadOf?_of_isWordStart hc⟩

/-- Every printed base has a form. -/
theorem Prints.exists_form {base : Expr σ} (h : s.Prints base)
    (hbase : base.IsBase) : ∃ lead, s.Form base lead := by
  cases base with
  | bool b => exact ⟨_, .word (.bool b)⟩
  | number value kind => exact ⟨_, .number h.1 h.2.1 h.2.2⟩
  | string text => exact ⟨_, .string text⟩
  | enum value =>
    obtain ⟨hknows, henum, member, hname⟩ := h
    exact ⟨_, .word (.enum hknows henum hname)⟩
  | logical op left right => exact ⟨_, .group (.operation (.logical op) left right)⟩
  | arithmetic op left right type =>
    cases h.2
    exact ⟨_, .group (.operation (.arithmetic op) left right)⟩
  | comparison op left right => exact ⟨_, .group (.operation (.comparison op) left right)⟩
  | conditional condition left right => exact ⟨_, .group (.conditional condition left right)⟩
  | var name type => exact ⟨_, .word (.name h.1 (.var h.2))⟩
  | typeName name type => exact ⟨_, .word (.name h.1 (.typeName h.2.1 h.2.2.1 h.2.2.2))⟩
  | castTarget type => exact h.elim
  | call callee args => exact ⟨_, .word (.call h.1 h.2)⟩
  | logicalUnary | arithmeticUnary | convert => cases hbase.1
  | property | method | element => cases hbase.2

/-! ## Forms of expressions -/

/-- What an expression begins with: an operator, a cast, or a base with suffixes. -/
inductive Front (s : Session σ) : Expr σ → Lead → Prop
  | sign {op : UnaryOp} {operand : Expr σ} : op ∈ UnaryOp.all → Front s (op.apply operand) .sign
  | cast {type : Ty} {operand : Expr σ} : s.ShowsType type →
      Front s (.convert type operand) .parenthesis
  | chain {base : Expr σ} {lead : Lead} (ts : List (Suffix σ)) : s.Form base lead →
      Front s (base.withSuffixes ts) lead

theorem Front.exists_cons {e : Expr σ} {lead : Lead} (h : s.Front e lead) :
    ∃ c cs, e.text.toList = c :: cs ∧ leadOf? c = some lead := by
  cases h with
  | @sign op operand hop =>
    obtain ⟨c, hchars, hlead⟩ := UnaryOp.exists_char hop
    rw [UnaryOp.text_apply, String.toList_append, hchars]
    exact ⟨c, _, rfl, hlead⟩
  | cast hknows =>
    simp only [Expr.text, String.toList_append, List.append_assoc]
    exact ⟨'(', _, rfl, rfl⟩
  | @chain base lead ts hform =>
    obtain ⟨c, cs, hchars, hlead⟩ := hform.exists_cons
    rw [Expr.toList_text_withSuffixes, hchars]
    exact ⟨c, _, rfl, hlead⟩

/-- Every printed expression begins with one of these. -/
theorem exists_front {e : Expr σ} (h : e.Everywhere s.Prints) :
    ∃ lead, s.Front e lead := by
  by_cases hprefix : e.isPrefixed
  · have hhere := h.here
    cases e with
    | logicalUnary op operand =>
      obtain rfl : op = .not := hhere
      have hfront : s.Front (UnaryOp.not.apply operand) .sign := .sign (by decide)
      exact ⟨_, hfront⟩
    | arithmeticUnary op operand type =>
      obtain ⟨hop, rfl⟩ := hhere
      have hfront : s.Front ((UnaryOp.arithmetic op).apply operand) .sign :=
        .sign (by rcases hop with rfl | rfl <;> decide)
      exact ⟨_, hfront⟩
    | convert type operand => exact ⟨_, .cast hhere⟩
    | _ => cases hprefix
  · obtain ⟨base, ts, hbase, rfl⟩ :=
      Expr.exists_base (h.mono fun _ => Prints.groupsSuffixes) (eq_false_of_ne_true hprefix)
    obtain ⟨lead, hform⟩ := h.of_withSuffixes.here.exists_form hbase
    exact ⟨lead, .chain ts hform⟩

end Session

end HostExpr
