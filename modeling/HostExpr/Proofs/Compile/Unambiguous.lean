-- SUMMARY: A text without casts has at most one derivation.
import HostExpr.Proofs.Compile.Derivation
import HostExpr.Proofs.Compile.Operators

/-!
# One derivation

A phrase that may stop at several places is pinned down by what comes after it: `EndsBefore` says that
the next token is none that goes on with the phrase, and each part of a derivation ends before the
token that the rule has next. Then two derivations of one phrase from the same tokens agree, part by
part from the left.

Casts are left out. The operand of a cast reaches as far as any expression does, so in `(T) a + b` the
sum may be the operand or may have the cast as its left operand.
-/

namespace HostExpr

variable {σ : Type} {s : Session σ}

/-! ## Texts without casts -/

/-- Nowhere is a name alone in parentheses that means a type. -/
def Session.CastFree (s : Session σ) (ts : Tokens) : Prop :=
  ∀ (opened inside close : Tokens) (name : String), opened <:+ ts → opened.Begins (.symbol .leftParen) inside →
    inside.Begins (.identifier name) close → close.kind = .symbol .rightParen →
    s.vars.find? name = none → s.types.find? name = none

theorem Session.CastFree.of_isSuffix {ts rest : Tokens} (h : s.CastFree ts) (hrest : rest <:+ ts) :
    s.CastFree rest :=
  fun _ _ _ _ hopened => h _ _ _ _ (hopened.trans hrest)

/-- A text in which no name means a type has no casts. -/
theorem Session.castFree_of_forall {ts : Tokens}
    (h : ∀ l ∈ ts, ∀ name, l.token = .identifier name → s.vars.find? name = none →
      s.types.find? name = none) : s.CastFree ts := by
  intro opened inside close name hopened hopen hname _ hvar
  obtain ⟨text, rfl⟩ := hname
  have hsuffix := hopen.isSuffix.trans hopened
  exact h _ (hsuffix.subset (List.mem_cons_self ..)) name rfl hvar

theorem TypeArguments.isSuffix {ts rest : Tokens} {types : List Ty}
    (h : TypeArguments s ts types rest) : rest <:+ ts := by
  induction h with
  | last hname _ hclose => exact hclose.isSuffix.trans hname.isSuffix
  | more hname _ hcomma _ ih => exact ih.trans (hcomma.isSuffix.trans hname.isSuffix)

namespace Derives

/-- What is left after a phrase is the end of what was there before it. -/
theorem isSuffix {phrase : Phrase σ} {d : Derivation} {ts rest : Tokens} {m : phrase.Meaning}
    (h : Derives s phrase d ts m rest) : rest <:+ ts := by
  induction h with
  | condition _ ih | tighter _ _ ih | tightest _ _ ih | noSign _ ih | someArguments _ ih => exact ih
  | conditional _ _ hyes _ _ hcolon _ _ ih₁ ih₂ ih₃ =>
    exact ih₃.trans (hcolon.isSuffix.trans (ih₂.trans (hyes.isSuffix.trans ih₁)))
  | level _ _ ih₁ ih₂ | named _ _ ih₁ ih₂ => exact ih₂.trans ih₁
  | noOperation | noSuffix => exact List.suffix_rfl
  | operations _ _ _ hop _ _ _ ih₁ ih₂ => exact ih₂.trans (ih₁.trans hop.isSuffix)
  | operation _ _ _ hop _ _ ih | sign _ hop _ _ ih => exact ih.trans hop.isSuffix
  | cast hopen _ hclose _ _ ih₁ ih₂ | group hopen _ _ hclose _ ih₁ ih₂ =>
    exact ih₂.trans (hclose.isSuffix.trans (ih₁.trans hopen.isSuffix))
  | literal htoken _ _ ih => exact ih.trans htoken.isSuffix
  | call hname hopen _ _ _ ih | methodCall hname hopen _ _ ih =>
    exact ih.trans (hopen.isSuffix.trans hname.isSuffix)
  | var hname _ | castTarget hname _ _ _ | typeName hname _ _ _ _ | property hname _ _ =>
    exact hname.isSuffix
  | enumMember hname _ _ hdot hmember _ =>
    exact hmember.isSuffix.trans (hdot.isSuffix.trans hname.isSuffix)
  | index hopen _ _ _ hclose _ ih₁ ih₂ =>
    exact ih₂.trans (hclose.isSuffix.trans (ih₁.trans hopen.isSuffix))
  | access hdot _ _ _ _ ih₁ ih₂ => exact ih₂.trans (ih₁.trans hdot.isSuffix)
  | genericCall hname _ hless htypes hopen _ _ ih =>
    exact ih.trans (hopen.isSuffix.trans (htypes.isSuffix.trans
      (hless.isSuffix.trans hname.isSuffix)))
  | noArgument hclose => exact hclose.isSuffix
  | lastArgument _ _ hclose ih => exact hclose.isSuffix.trans ih
  | argument _ _ hcomma _ ih₁ ih₂ => exact ih₂.trans (hcomma.isSuffix.trans ih₁)

end Derives

/-- If the tree of a phrase is a type that waits for the operand of a cast, then the phrase is the name
of the type, or all that the phrase adds to the expression on its left is nothing. -/
def Phrase.Waits (s : Session σ) : (phrase : Phrase σ) → phrase.Meaning → Tokens → Tokens → Prop
  | .expression, e, ts, rest | .level _, e, ts, rest | .operand _, e, ts, rest
  | .unary, e, ts, rest | .primary, e, ts, rest | .named, e, ts, rest =>
    ∀ type, e = .castTarget type → ∃ name, ts.Begins (.identifier name) rest ∧
      s.vars.find? name = none ∧ s.types.find? name = some type ∧ rest.kind = .symbol .rightParen
  | .chain _ left, e, ts, rest | .suffixes left, e, ts, rest =>
    ∀ type, e = .castTarget type → left = .castTarget type ∧ ts = rest
  | .member _, e, _, _ => ∀ type, e ≠ .castTarget type
  | .arguments, _, _, _ | .argumentList, _, _, _ => True

/-- If the tree of a phrase only names a type, then the phrase is a name, or all that the phrase adds to
the expression on its left is nothing. -/
def Phrase.NamesType (s : Session σ) : (phrase : Phrase σ) → phrase.Meaning → Tokens → Tokens → Prop
  | .expression, e, ts, rest | .level _, e, ts, rest | .operand _, e, ts, rest
  | .unary, e, ts, rest | .primary, e, ts, rest | .named, e, ts, rest =>
    e.isTypeReference → ∃ d, Derives s .named d ts e rest
  | .chain _ left, e, ts, rest | .suffixes left, e, ts, rest =>
    e.isTypeReference → left = e ∧ ts = rest
  | .member _, e, _, _ => e.isTypeReference = false
  | .arguments, _, _, _ | .argumentList, _, _, _ => True

/-- The name of a type that waits for no operand stands before no closing parenthesis. -/
theorem Derives.kind_ne_rightParen {d : Derivation} {ts rest : Tokens} {e : Expr σ}
    (h : Derives s .named d ts e rest) (htype : e.isTypeReference) (hobject : e.isObject) :
    rest.kind ≠ .symbol .rightParen := by
  cases h with
  | castTarget => cases hobject
  | typeName _ _ _ hkind => exact hkind
  | call | var | enumMember => cases htype

theorem Derives.namesType {phrase : Phrase σ} {d : Derivation} {ts rest : Tokens} {m : phrase.Meaning}
    (h : Derives s phrase d ts m rest) : phrase.NamesType s m ts rest := by
  induction h with
  | condition _ ih | tighter _ _ ih | tightest _ _ ih | noSign _ ih => exact ih
  | level _ _ ih₁ ih₂ | named _ _ ih₁ ih₂ =>
    intro he
    obtain ⟨rfl, rfl⟩ := ih₂ he
    exact ih₁ he
  | noOperation | noSuffix => exact fun _ => ⟨rfl, rfl⟩
  | @operations p op =>
    rename_i ih
    intro he
    obtain ⟨hcombine, -⟩ := ih he
    subst hcombine
    cases op <;> cases he
  | @operation p op =>
    intro he
    cases op <;> cases he
  | @sign op =>
    intro he
    cases op <;> cases he
  | group _ _ hobject hclose _ ih₁ ih₂ =>
    intro he
    obtain ⟨rfl, -⟩ := ih₂ he
    obtain ⟨d, hd⟩ := ih₁ he
    exact absurd hclose.kind_eq (hd.kind_ne_rightParen he hobject)
  | @literal token =>
    rename_i hbase _ ih
    intro he
    obtain ⟨rfl, -⟩ := ih he
    cases token <;> cases hbase <;> cases he
  | castTarget hname hvar htype hkind => exact fun _ => ⟨_, .castTarget hname hvar htype hkind⟩
  | typeName hname hvar htype hkind henum => exact fun _ => ⟨_, .typeName hname hvar htype hkind henum⟩
  | index _ _ _ _ _ _ _ ih =>
    intro he
    cases (ih he).1
    cases he
  | access _ _ _ _ _ ih₁ ih₂ =>
    intro he
    obtain ⟨rfl, -⟩ := ih₂ he
    cases ih₁.symm.trans he
  | conditional | cast | call | var | enumMember => exact nofun
  | methodCall | genericCall | property => rfl
  | noArgument | someArguments | lastArgument | argument => trivial

theorem Derives.waits {phrase : Phrase σ} {d : Derivation} {ts rest : Tokens} {m : phrase.Meaning}
    (h : Derives s phrase d ts m rest) : phrase.Waits s m ts rest := by
  have hnames := h.namesType
  have hnamed : ∀ {e : Expr σ} {ts rest : Tokens} {type : Ty},
      (e.isTypeReference → ∃ d, Derives s .named d ts e rest) → e = .castTarget type →
      ∃ name, ts.Begins (.identifier name) rest ∧ s.vars.find? name = none ∧
        s.types.find? name = some type ∧ rest.kind = .symbol .rightParen := by
    rintro e ts rest type hd rfl
    obtain ⟨d, hd⟩ := hd rfl
    cases hd with
    | castTarget hname hvar htype hkind => exact ⟨_, hname, hvar, htype, hkind⟩
  cases phrase with
  | expression | level | operand | unary | primary | named => exact fun type he => hnamed hnames he
  | chain p left | suffixes left =>
    rintro type rfl
    exact hnames rfl
  | member object =>
    rintro type rfl
    cases hnames
  | arguments | argumentList => trivial

/-- There is no type in parentheses in a text without casts. -/
theorem Derives.false_of_castTarget {d : Derivation} {ts inside close : Tokens} {type : Ty}
    (hfree : s.CastFree ts) (hopen : ts.Begins (.symbol .leftParen) inside)
    (h : Derives s .expression d inside (.castTarget type) close) : False := by
  obtain ⟨name, hname, hvar, htype, hkind⟩ := h.waits type rfl
  have hnone := hfree ts inside close name List.suffix_rfl hopen hname hkind hvar
  cases hnone.symm.trans htype

/-! ## The first token -/

/-- The tokens begin as a phrase does: with a name, with no symbol but a parenthesis, with no closing
parenthesis, or with what goes on from the expression on the left. -/
def Phrase.Opens : Phrase σ → Tokens → Tokens → Prop
  | .named, ts, _ => ts.kind = .identifier
  | .primary, ts, _ => ∀ symbol, ts.kind = .symbol symbol → symbol = .leftParen
  | .expression, ts, _ | .level _, ts, _ | .operand _, ts, _ | .unary, ts, _
  | .argumentList, ts, _ => ts.kind ≠ .symbol .rightParen
  | .chain p _, ts, rest => ts = rest ∨ ∃ op ∈ p.operators, ts.kind = .symbol op.symbol
  | .suffixes _, ts, rest => ts = rest ∨ ts.kind = .symbol .leftBracket ∨ ts.kind = .symbol .dot
  | .member _, _, _ | .arguments, _, _ => True

theorem Derives.opens {phrase : Phrase σ} {d : Derivation} {ts rest : Tokens} {m : phrase.Meaning}
    (h : Derives s phrase d ts m rest) : phrase.Opens ts rest := by
  induction h with
  | condition _ ih | tighter _ _ ih | tightest _ _ ih => exact ih
  | level _ _ ih _ | conditional _ _ _ _ _ _ _ _ ih _ _ | lastArgument _ _ _ ih
  | argument _ _ _ _ ih _ => exact ih
  | noOperation | noSuffix => exact .inl rfl
  | operations _ hop _ hbegins | operation _ hop _ hbegins =>
    exact .inr ⟨_, hop, hbegins.kind_eq⟩
  | noSign _ ih =>
    intro hkind
    cases ih _ hkind
  | @sign op =>
    rename_i hbegins _ _ _
    intro hkind
    cases op with
    | not => cases hbegins.kind_eq.symm.trans hkind
    | arithmetic op => cases op <;> cases hbegins.kind_eq.symm.trans hkind
  | named _ _ ih _ =>
    intro symbol hkind
    cases ih.symm.trans hkind
  | cast hopen | group hopen =>
    intro symbol hkind
    cases hopen.kind_eq.symm.trans hkind
    rfl
  | literal hbegins hbase _ _ =>
    intro symbol hkind
    exact absurd (hbegins.kind_eq.symm.trans hkind) ((Parsed.literal_kind_ne hbase).2 symbol)
  | call hname | var hname | castTarget hname | enumMember hname | typeName hname =>
    exact hname.kind_eq
  | index hopen => exact .inr (.inl hopen.kind_eq)
  | access hdot => exact .inr (.inr hdot.kind_eq)
  | methodCall | genericCall | property | noArgument | someArguments => trivial

/-! ## The token after a phrase -/

namespace Phrase

/-- The width of a phrase: symbols of a smaller width go on with it. -/
def width : Phrase σ → Nat
  | arguments | argumentList => 0
  | named | member _ => 1
  | suffixes _ | unary | primary => 2
  | operand p => p.looseness + 3
  | level p | chain p _ => p.looseness + 4
  | expression => 14

/-- The tokens do not go on with the phrase. -/
def EndsBefore (phrase : Phrase σ) (ts : Tokens) : Prop :=
  ∀ symbol width, ts.kind = .symbol symbol → symbol.width? = some width → phrase.width ≤ width

namespace EndsBefore

variable {phrase : Phrase σ} {ts : Tokens} {symbol : Symbol} {width : Nat}

theorem mono (h : phrase.EndsBefore ts) {narrow : Phrase σ} (hle : narrow.width ≤ phrase.width) :
    narrow.EndsBefore ts :=
  fun symbol width hkind hwidth => Nat.le_trans hle (h symbol width hkind hwidth)

/-- A phrase ends before a symbol that goes on with nothing. -/
theorem of_separator (hkind : ts.kind = .symbol symbol) (hwidth : symbol.width? = none) :
    phrase.EndsBefore ts := by
  intro symbol' width' hkind' hwidth'
  cases hkind.symm.trans hkind'
  cases hwidth.symm.trans hwidth'

/-- A phrase ends before a symbol that goes on with wider ones only. -/
theorem of_wider (hkind : ts.kind = .symbol symbol) (hwidth : symbol.width? = some width)
    (hle : phrase.width ≤ width) : phrase.EndsBefore ts := by
  intro symbol' width' hkind' hwidth'
  cases hkind.symm.trans hkind'
  cases hwidth.symm.trans hwidth'
  exact hle

/-- No symbol that goes on with a phrase comes after it. -/
theorem kind_ne (h : phrase.EndsBefore ts) (hwidth : symbol.width? = some width)
    (hlt : width < phrase.width) : ts.kind ≠ .symbol symbol :=
  fun hkind => absurd (h symbol width hkind hwidth) (Nat.not_le.2 hlt)

/-- No operation of its own level comes after the operations of a level. -/
theorem kind_ne_operator {p : Precedence} {left : Expr σ} (h : (chain p left).EndsBefore ts)
    {op : BinaryOp} (hop : op ∈ p.operators) : ts.kind ≠ .symbol op.symbol :=
  h.kind_ne (Symbol.width?_operator hop) (Nat.lt_succ_self _)

/-- No symbol goes on with arguments: they end with their closing parenthesis. -/
theorem arguments : (.arguments : Phrase σ).EndsBefore ts :=
  fun _ _ _ _ => Nat.zero_le _

/-- No argument list comes after a name. -/
theorem kind_ne_leftParen (h : phrase.EndsBefore ts) (hlt : 0 < phrase.width) :
    ts.kind ≠ .symbol .leftParen :=
  h.kind_ne rfl hlt

end EndsBefore

end Phrase

namespace Derives

variable {ts rest : Tokens} {d : Derivation}

/-- An operand ends before the operations that follow it. -/
theorem endsBefore_chain {p : Precedence} {left e : Expr σ}
    (h : Derives s (.chain p left) d ts e rest) (hend : (Phrase.chain p left).EndsBefore rest) :
    (.operand p : Phrase σ).EndsBefore ts := by
  rcases h.opens with rfl | ⟨op, hop, hkind⟩
  · exact hend.mono (Nat.le_succ _)
  · exact .of_wider hkind (Symbol.width?_operator hop) (Nat.le_refl _)

/-- A name or member ends before the suffixes that follow it. -/
theorem endsBefore_suffixes {base e : Expr σ} (h : Derives s (.suffixes base) d ts e rest)
    (hend : (Phrase.suffixes base).EndsBefore rest) {phrase : Phrase σ}
    (hle : phrase.width ≤ 1) : phrase.EndsBefore ts := by
  rcases h.opens with rfl | hkind | hkind
  · exact hend.mono (Nat.le_succ_of_le hle)
  · exact .of_wider hkind rfl hle
  · exact .of_wider hkind rfl hle

end Derives

/-! ## Uniqueness -/

/-- Type arguments end at their closing bracket. -/
theorem TypeArguments.unique {ts rest rest' : Tokens} {types types' : List Ty}
    (h : TypeArguments s ts types rest) (h' : TypeArguments s ts types' rest') :
    types' = types ∧ rest' = rest := by
  induction h generalizing types' rest' with
  | last hname htype hclose =>
    cases h' with
    | last hname' htype' hclose' =>
      obtain ⟨rfl, rfl⟩ := hname'.unique_name hname
      cases htype'.symm.trans htype
      exact ⟨rfl, (hclose'.unique hclose).2⟩
    | more hname' _ hcomma' _ =>
      obtain ⟨-, rfl⟩ := hname'.unique hname
      cases hcomma'.kind_eq.symm.trans hclose.kind_eq
  | more hname htype hcomma _ ih =>
    cases h' with
    | last hname' _ hclose' =>
      obtain ⟨-, rfl⟩ := hname'.unique hname
      cases hclose'.kind_eq.symm.trans hcomma.kind_eq
    | more hname' htype' hcomma' hmore' =>
      obtain ⟨rfl, rfl⟩ := hname'.unique_name hname
      cases htype'.symm.trans htype
      obtain ⟨-, rfl⟩ := hcomma'.unique hcomma
      obtain ⟨rfl, rfl⟩ := ih hmore'
      exact ⟨rfl, rfl⟩

open Phrase.EndsBefore in
/-- Two derivations of a phrase from the same tokens are one, if both end where the next token does not
go on with the phrase. By induction on the first, part by part from the left: each part ends before the
token that its rule has next, so both derivations have the same part. -/
theorem Derives.unique {phrase : Phrase σ} {d d' : Derivation} {ts rest rest' : Tokens}
    {m m' : phrase.Meaning} (h : Derives s phrase d ts m rest) (hfree : s.CastFree ts)
    (hend : phrase.EndsBefore rest) (h' : Derives s phrase d' ts m' rest')
    (hend' : phrase.EndsBefore rest') : d' = d ∧ m' = m ∧ rest' = rest := by
  induction h generalizing d' rest' with
  | condition _ ih =>
    cases h' with
    | condition hor' =>
      obtain ⟨rfl, rfl, rfl⟩ := ih hfree (hend.mono (Nat.le_succ _)) hor'
        (hend'.mono (Nat.le_succ _))
      exact ⟨rfl, rfl, rfl⟩
    | conditional hor' _ hyes' =>
      obtain ⟨-, -, rfl⟩ := ih hfree (hend.mono (Nat.le_succ _)) hor'
        (of_wider hyes'.kind_eq rfl (Nat.le_refl _))
      exact absurd hyes'.kind_eq (hend.kind_ne rfl (Nat.le_refl _))
  | conditional hor _ hyes hleft _ hcolon _ _ ih₁ ih₂ ih₃ =>
    cases h' with
    | condition hor' =>
      obtain ⟨-, -, rfl⟩ := ih₁ hfree (of_wider hyes.kind_eq rfl (Nat.le_refl _)) hor'
        (hend'.mono (Nat.le_succ _))
      exact absurd hyes.kind_eq (hend'.kind_ne rfl (Nat.le_refl _))
    | conditional hor' _ hyes' hleft' _ hcolon' hright' _ =>
      obtain ⟨rfl, rfl, rfl⟩ := ih₁ hfree (of_wider hyes.kind_eq rfl (Nat.le_refl _)) hor'
        (of_wider hyes'.kind_eq rfl (Nat.le_refl _))
      obtain ⟨-, rfl⟩ := hyes'.unique hyes
      have hfree₂ := hfree.of_isSuffix (hyes.isSuffix.trans hor.isSuffix)
      obtain ⟨rfl, rfl, rfl⟩ := ih₂ hfree₂ (of_separator hcolon.kind_eq rfl) hleft'
        (of_separator hcolon'.kind_eq rfl)
      obtain ⟨-, rfl⟩ := hcolon'.unique hcolon
      have hfree₃ := hfree₂.of_isSuffix (hcolon.isSuffix.trans hleft.isSuffix)
      obtain ⟨rfl, rfl, rfl⟩ := ih₃ hfree₃ hend hright' hend'
      exact ⟨rfl, rfl, rfl⟩
  | level hoperand hchain ih₁ ih₂ =>
    cases h' with
    | level hoperand' hchain' =>
      obtain ⟨rfl, rfl, rfl⟩ := ih₁ hfree (hchain.endsBefore_chain hend) hoperand'
        (hchain'.endsBefore_chain hend')
      obtain ⟨rfl, rfl, rfl⟩ := ih₂ (hfree.of_isSuffix hoperand.isSuffix) hend hchain' hend'
      exact ⟨rfl, rfl, rfl⟩
  | noOperation =>
    cases h' with
    | noOperation => exact ⟨rfl, rfl, rfl⟩
    | operations _ hop' _ hbegins' => exact absurd hbegins'.kind_eq (hend.kind_ne_operator hop')
    | operation _ hop' _ hbegins' => exact absurd hbegins'.kind_eq (hend.kind_ne_operator hop')
  | operations hchains hop _ hbegins hright _ hmore ih₁ ih₂ =>
    cases h' with
    | noOperation => exact absurd hbegins.kind_eq (hend'.kind_ne_operator hop)
    | operations _ _ _ hbegins' hright' _ hmore' =>
      obtain ⟨hsymbol, rfl⟩ := hbegins'.unique hbegins
      cases BinaryOp.symbol_injective (Token.symbol.inj hsymbol)
      have hfree₁ := hfree.of_isSuffix hbegins.isSuffix
      obtain ⟨rfl, rfl, rfl⟩ := ih₁ hfree₁ (hmore.endsBefore_chain hend) hright'
        (hmore'.endsBefore_chain hend')
      obtain ⟨rfl, rfl, rfl⟩ := ih₂ (hfree₁.of_isSuffix hright.isSuffix) hend hmore' hend'
      exact ⟨rfl, rfl, rfl⟩
    | operation hchains' => cases hchains.symm.trans hchains'
  | operation hchains hop _ hbegins _ _ ih =>
    cases h' with
    | noOperation => exact absurd hbegins.kind_eq (hend'.kind_ne_operator hop)
    | operations hchains' => cases hchains.symm.trans hchains'
    | operation _ _ _ hbegins' hright' =>
      obtain ⟨hsymbol, rfl⟩ := hbegins'.unique hbegins
      cases BinaryOp.symbol_injective (Token.symbol.inj hsymbol)
      obtain ⟨rfl, rfl, rfl⟩ := ih (hfree.of_isSuffix hbegins.isSuffix)
        (hend.mono (Nat.le_succ _)) hright' (hend'.mono (Nat.le_succ _))
      exact ⟨rfl, rfl, rfl⟩
  | tighter hq _ ih =>
    cases h' with
    | tighter hq' hlevel' =>
      cases hq.symm.trans hq'
      have hle := Precedence.looseness_tighter? hq
      obtain ⟨rfl, rfl, rfl⟩ := ih hfree (hend.mono (Nat.add_le_add_right hle 3)) hlevel'
        (hend'.mono (Nat.add_le_add_right hle 3))
      exact ⟨rfl, rfl, rfl⟩
    | tightest hp' => cases hq.symm.trans hp'
  | tightest hp _ ih =>
    cases h' with
    | tighter hq' => cases hp.symm.trans hq'
    | tightest _ hunary' =>
      have hle : ∀ n, 2 ≤ n + 3 := fun n => by omega
      obtain ⟨rfl, rfl, rfl⟩ := ih hfree (hend.mono (hle _)) hunary' (hend'.mono (hle _))
      exact ⟨rfl, rfl, rfl⟩
  | noSign hprimary ih =>
    cases h' with
    | noSign hprimary' =>
      obtain ⟨rfl, rfl, rfl⟩ := ih hfree hend hprimary' hend'
      exact ⟨rfl, rfl, rfl⟩
    | sign _ hbegins' _ _ =>
      exact absurd (hprimary.opens _ hbegins'.kind_eq) (UnaryOp.symbol_ne_leftParen _)
  | sign _ hbegins _ _ ih =>
    cases h' with
    | noSign hprimary' =>
      exact absurd (hprimary'.opens _ hbegins.kind_eq) (UnaryOp.symbol_ne_leftParen _)
    | sign _ hbegins' hprimary' _ =>
      obtain ⟨hsymbol, rfl⟩ := hbegins'.unique hbegins
      cases UnaryOp.symbol_injective (Token.symbol.inj hsymbol)
      obtain ⟨rfl, rfl, rfl⟩ := ih (hfree.of_isSuffix hbegins.isSuffix) hend hprimary' hend'
      exact ⟨rfl, rfl, rfl⟩
  | cast hopen hinner => exact (hinner.false_of_castTarget hfree hopen).elim
  | group hopen hinner _ hclose hsuffixes ih₁ ih₂ =>
    cases h' with
    | cast hopen' hinner' => exact (hinner'.false_of_castTarget hfree hopen').elim
    | group hopen' hinner' _ hclose' hsuffixes' =>
      obtain ⟨-, rfl⟩ := hopen'.unique hopen
      have hfree₁ := hfree.of_isSuffix hopen.isSuffix
      obtain ⟨rfl, rfl, rfl⟩ := ih₁ hfree₁ (of_separator hclose.kind_eq rfl) hinner'
        (of_separator hclose'.kind_eq rfl)
      obtain ⟨-, rfl⟩ := hclose'.unique hclose
      have hfree₂ := hfree₁.of_isSuffix (hclose.isSuffix.trans hinner.isSuffix)
      obtain ⟨rfl, rfl, rfl⟩ := ih₂ hfree₂ hend hsuffixes' hend'
      exact ⟨rfl, rfl, rfl⟩
    | named hnamed' => cases hnamed'.opens.symm.trans hopen.kind_eq
    | literal hbegins' hbase' =>
      exact absurd (hbegins'.kind_eq.symm.trans hopen.kind_eq)
        ((Parsed.literal_kind_ne hbase').2 _)
  | named hnamed hsuffixes ih₁ ih₂ =>
    cases h' with
    | cast hopen' | group hopen' => cases hnamed.opens.symm.trans hopen'.kind_eq
    | named hnamed' hsuffixes' =>
      obtain ⟨rfl, rfl, rfl⟩ := ih₁ hfree (hsuffixes.endsBefore_suffixes hend (Nat.le_refl _))
        hnamed' (hsuffixes'.endsBefore_suffixes hend' (Nat.le_refl _))
      obtain ⟨rfl, rfl, rfl⟩ := ih₂ (hfree.of_isSuffix hnamed.isSuffix) hend hsuffixes' hend'
      exact ⟨rfl, rfl, rfl⟩
    | literal hbegins' hbase' =>
      exact absurd (hbegins'.kind_eq.symm.trans hnamed.opens) (Parsed.literal_kind_ne hbase').1
  | literal hbegins hbase hsuffixes ih =>
    cases h' with
    | cast hopen' | group hopen' =>
      exact absurd (hbegins.kind_eq.symm.trans hopen'.kind_eq)
        ((Parsed.literal_kind_ne hbase).2 _)
    | named hnamed' =>
      exact absurd (hbegins.kind_eq.symm.trans hnamed'.opens) (Parsed.literal_kind_ne hbase).1
    | literal hbegins' hbase' hsuffixes' =>
      obtain ⟨rfl, rfl⟩ := hbegins'.unique hbegins
      cases hbase'.symm.trans hbase
      obtain ⟨rfl, rfl, rfl⟩ := ih (hfree.of_isSuffix hbegins.isSuffix) hend hsuffixes' hend'
      exact ⟨rfl, rfl, rfl⟩
  | call hname hopen _ hcallee _ ih =>
    cases h' with
    | call hname' hopen' hargs' hcallee' _ =>
      obtain ⟨rfl, rfl⟩ := hname'.unique_name hname
      cases hcallee'.symm.trans hcallee
      obtain ⟨-, rfl⟩ := hopen'.unique hopen
      have hfree₁ := hfree.of_isSuffix (hopen.isSuffix.trans hname.isSuffix)
      obtain ⟨rfl, rfl, rfl⟩ := ih hfree₁ arguments hargs' arguments
      exact ⟨rfl, rfl, rfl⟩
    | var hname' | castTarget hname' | typeName hname' =>
      obtain ⟨-, rfl⟩ := hname'.unique hname
      exact absurd hopen.kind_eq (hend'.kind_ne_leftParen (Nat.le_refl _))
    | enumMember hname' _ _ hdot' =>
      obtain ⟨-, rfl⟩ := hname'.unique hname
      cases hdot'.kind_eq.symm.trans hopen.kind_eq
  | var hname htype =>
    cases h' with
    | call hname' hopen' =>
      obtain ⟨-, rfl⟩ := hname'.unique hname
      exact absurd hopen'.kind_eq (hend.kind_ne_leftParen (Nat.le_refl _))
    | var hname' htype' =>
      obtain ⟨rfl, rfl⟩ := hname'.unique_name hname
      cases htype'.symm.trans htype
      exact ⟨rfl, rfl, rfl⟩
    | castTarget hname' hvar' | enumMember hname' hvar' | typeName hname' hvar' =>
      obtain ⟨rfl, -⟩ := hname'.unique_name hname
      cases hvar'.symm.trans htype
  | castTarget hname hvar htype hkind =>
    cases h' with
    | call hname' hopen' =>
      obtain ⟨-, rfl⟩ := hname'.unique hname
      cases hopen'.kind_eq.symm.trans hkind
    | var hname' htype' =>
      obtain ⟨rfl, -⟩ := hname'.unique_name hname
      cases hvar.symm.trans htype'
    | castTarget hname' _ htype' _ =>
      obtain ⟨rfl, rfl⟩ := hname'.unique_name hname
      cases htype'.symm.trans htype
      exact ⟨rfl, rfl, rfl⟩
    | enumMember hname' _ _ hdot' =>
      obtain ⟨-, rfl⟩ := hname'.unique hname
      cases hdot'.kind_eq.symm.trans hkind
    | typeName hname' _ _ hkind' =>
      obtain ⟨-, rfl⟩ := hname'.unique hname
      exact absurd hkind hkind'
  | enumMember hname hvar htype hdot hmember hvalue =>
    cases h' with
    | call hname' hopen' =>
      obtain ⟨-, rfl⟩ := hname'.unique hname
      cases hopen'.kind_eq.symm.trans hdot.kind_eq
    | var hname' htype' =>
      obtain ⟨rfl, -⟩ := hname'.unique_name hname
      cases hvar.symm.trans htype'
    | castTarget hname' _ _ hkind' =>
      obtain ⟨-, rfl⟩ := hname'.unique hname
      cases hdot.kind_eq.symm.trans hkind'
    | enumMember hname' _ htype' hdot' hmember' hvalue' =>
      obtain ⟨rfl, rfl⟩ := hname'.unique_name hname
      cases htype'.symm.trans htype
      obtain ⟨-, rfl⟩ := hdot'.unique hdot
      obtain ⟨rfl, rfl⟩ := hmember'.unique_name hmember
      cases hvalue'.symm.trans hvalue
      exact ⟨rfl, rfl, rfl⟩
    | typeName hname' _ htype' _ henum' =>
      obtain ⟨rfl, -⟩ := hname'.unique_name hname
      cases htype'.symm.trans htype
      exact absurd rfl (henum' _)
  | typeName hname hvar htype hkind henum =>
    cases h' with
    | call hname' hopen' =>
      obtain ⟨-, rfl⟩ := hname'.unique hname
      exact absurd hopen'.kind_eq (hend.kind_ne_leftParen (Nat.le_refl _))
    | var hname' htype' =>
      obtain ⟨rfl, -⟩ := hname'.unique_name hname
      cases hvar.symm.trans htype'
    | castTarget hname' _ _ hkind' =>
      obtain ⟨-, rfl⟩ := hname'.unique hname
      exact absurd hkind' hkind
    | enumMember hname' _ htype' =>
      obtain ⟨rfl, -⟩ := hname'.unique_name hname
      cases htype.symm.trans htype'
      exact absurd rfl (henum _)
    | typeName hname' _ htype' =>
      obtain ⟨rfl, rfl⟩ := hname'.unique_name hname
      cases htype'.symm.trans htype
      exact ⟨rfl, rfl, rfl⟩
  | noSuffix =>
    cases h' with
    | noSuffix => exact ⟨rfl, rfl, rfl⟩
    | index hopen' => exact absurd hopen'.kind_eq (hend.kind_ne rfl (Nat.le_refl _))
    | access hdot' => exact absurd hdot'.kind_eq (hend.kind_ne rfl (Nat.le_refl _))
  | index hopen htype hindex _ hclose _ ih₁ ih₂ =>
    cases h' with
    | noSuffix => exact absurd hopen.kind_eq (hend'.kind_ne rfl (Nat.le_refl _))
    | index hopen' htype' hindex' _ hclose' hmore' =>
      obtain ⟨-, rfl⟩ := hopen'.unique hopen
      cases htype'.symm.trans htype
      have hfree₁ := hfree.of_isSuffix hopen.isSuffix
      obtain ⟨rfl, rfl, rfl⟩ := ih₁ hfree₁ (of_separator hclose.kind_eq rfl) hindex'
        (of_separator hclose'.kind_eq rfl)
      obtain ⟨-, rfl⟩ := hclose'.unique hclose
      have hfree₂ := hfree₁.of_isSuffix (hclose.isSuffix.trans hindex.isSuffix)
      obtain ⟨rfl, rfl, rfl⟩ := ih₂ hfree₂ hend hmore' hend'
      exact ⟨rfl, rfl, rfl⟩
    | access hdot' => cases hdot'.kind_eq.symm.trans hopen.kind_eq
  | access hdot _ _ hmember hmore ih₁ ih₂ =>
    cases h' with
    | noSuffix => exact absurd hdot.kind_eq (hend'.kind_ne rfl (Nat.le_refl _))
    | index hopen' => cases hdot.kind_eq.symm.trans hopen'.kind_eq
    | access hdot' _ _ hmember' hmore' =>
      obtain ⟨-, rfl⟩ := hdot'.unique hdot
      have hfree₁ := hfree.of_isSuffix hdot.isSuffix
      obtain ⟨rfl, rfl, rfl⟩ := ih₁ hfree₁ (hmore.endsBefore_suffixes hend (Nat.le_refl _)) hmember'
        (hmore'.endsBefore_suffixes hend' (Nat.le_refl _))
      obtain ⟨rfl, rfl, rfl⟩ := ih₂ (hfree₁.of_isSuffix hmember.isSuffix) hend hmore' hend'
      exact ⟨rfl, rfl, rfl⟩
  | methodCall hname hopen _ hcallee ih =>
    cases h' with
    | methodCall hname' hopen' hargs' hcallee' =>
      obtain ⟨rfl, rfl⟩ := hname'.unique_name hname
      obtain ⟨-, rfl⟩ := hopen'.unique hopen
      have hfree₁ := hfree.of_isSuffix (hopen.isSuffix.trans hname.isSuffix)
      obtain ⟨rfl, rfl, rfl⟩ := ih hfree₁ arguments hargs' arguments
      cases hcallee'.symm.trans hcallee
      exact ⟨rfl, rfl, rfl⟩
    | genericCall hname' _ hless' =>
      obtain ⟨-, rfl⟩ := hname'.unique hname
      cases hless'.kind_eq.symm.trans hopen.kind_eq
    | property hname' =>
      obtain ⟨-, rfl⟩ := hname'.unique hname
      exact absurd hopen.kind_eq (hend'.kind_ne_leftParen (Nat.le_refl _))
  | genericCall hname hgeneric hless htypes hopen _ hcallee ih =>
    cases h' with
    | methodCall hname' hopen' =>
      obtain ⟨-, rfl⟩ := hname'.unique hname
      cases hopen'.kind_eq.symm.trans hless.kind_eq
    | genericCall hname' _ hless' htypes' hopen' hargs' hcallee' =>
      obtain ⟨rfl, rfl⟩ := hname'.unique_name hname
      obtain ⟨-, rfl⟩ := hless'.unique hless
      obtain ⟨rfl, rfl⟩ := htypes.unique htypes'
      obtain ⟨-, rfl⟩ := hopen'.unique hopen
      have hfree₁ := hfree.of_isSuffix (hopen.isSuffix.trans (htypes.isSuffix.trans
        (hless.isSuffix.trans hname.isSuffix)))
      obtain ⟨rfl, rfl, rfl⟩ := ih hfree₁ arguments hargs' arguments
      cases hcallee'.symm.trans hcallee
      exact ⟨rfl, rfl, rfl⟩
    | property hname' hgeneric' =>
      obtain ⟨rfl, rfl⟩ := hname'.unique_name hname
      exact absurd ⟨hless.kind_eq, hgeneric⟩ hgeneric'
  | property hname hgeneric hmember =>
    cases h' with
    | methodCall hname' hopen' =>
      obtain ⟨-, rfl⟩ := hname'.unique hname
      exact absurd hopen'.kind_eq (hend.kind_ne_leftParen (Nat.le_refl _))
    | genericCall hname' hgeneric' hless' =>
      obtain ⟨rfl, rfl⟩ := hname'.unique_name hname
      exact absurd ⟨hless'.kind_eq, hgeneric'⟩ hgeneric
    | property hname' _ hmember' =>
      obtain ⟨rfl, rfl⟩ := hname'.unique_name hname
      cases hmember'.symm.trans hmember
      exact ⟨rfl, rfl, rfl⟩
  | noArgument hclose =>
    cases h' with
    | noArgument hclose' => exact ⟨rfl, rfl, (hclose'.unique hclose).2⟩
    | someArguments hargs' => exact absurd hclose.kind_eq hargs'.opens
  | someArguments hargs ih =>
    cases h' with
    | noArgument hclose' => exact absurd hclose'.kind_eq hargs.opens
    | someArguments hargs' =>
      obtain ⟨rfl, rfl, rfl⟩ := ih hfree hend hargs' hend'
      exact ⟨rfl, rfl, rfl⟩
  | lastArgument _ _ hclose ih =>
    cases h' with
    | lastArgument harg' _ hclose' =>
      obtain ⟨rfl, rfl, rfl⟩ := ih hfree (of_separator hclose.kind_eq rfl) harg'
        (of_separator hclose'.kind_eq rfl)
      exact ⟨rfl, rfl, (hclose'.unique hclose).2⟩
    | argument harg' _ hcomma' _ =>
      obtain ⟨-, -, rfl⟩ := ih hfree (of_separator hclose.kind_eq rfl) harg'
        (of_separator hcomma'.kind_eq rfl)
      cases hcomma'.kind_eq.symm.trans hclose.kind_eq
  | argument harg _ hcomma _ ih₁ ih₂ =>
    cases h' with
    | lastArgument harg' _ hclose' =>
      obtain ⟨-, -, rfl⟩ := ih₁ hfree (of_separator hcomma.kind_eq rfl) harg'
        (of_separator hclose'.kind_eq rfl)
      cases hclose'.kind_eq.symm.trans hcomma.kind_eq
    | argument harg' _ hcomma' hmore' =>
      obtain ⟨rfl, rfl, rfl⟩ := ih₁ hfree (of_separator hcomma.kind_eq rfl) harg'
        (of_separator hcomma'.kind_eq rfl)
      obtain ⟨-, rfl⟩ := hcomma'.unique hcomma
      have hfree₂ := hfree.of_isSuffix (hcomma.isSuffix.trans harg.isSuffix)
      obtain ⟨rfl, rfl, rfl⟩ := ih₂ hfree₂ hend hmore' hend'
      exact ⟨rfl, rfl, rfl⟩

end HostExpr
