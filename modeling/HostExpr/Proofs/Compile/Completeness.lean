-- SUMMARY: What has a derivation is read, and the texts without casts that are accepted.
import HostExpr.Proofs.Compile.Soundness
import HostExpr.Proofs.Compile.Unambiguous

/-!
# Completeness of reading

Reading takes an operation or a suffix whenever there is one. A phrase that ends before a token that
does not go on with it is read up to there, so no such choice loses a derivation.
-/

namespace HostExpr

variable {σ : Type} {s : Session σ}

open Session

/-- The function for a phrase reads its meaning. -/
def Session.Reads (s : Session σ) : (phrase : Phrase σ) → Tokens → phrase.Meaning → Tokens → Prop
  | .expression, ts, e, rest => (s.expression ts).Yields e rest
  | .level p, ts, e, rest => (s.level p ts).Yields e rest
  | .chain p left, ts, e, rest => ∀ start, (s.chain p start left ts).Yields e rest
  | .operand p, ts, e, rest => (s.operand p ts).Yields e rest
  | .unary, ts, e, rest => (s.unary ts).Yields e rest
  | .primary, ts, e, rest => (s.primary ts).Yields e rest
  | .named, ts, e, rest => (s.named ts).Yields e rest
  | .suffixes base, ts, e, rest => (s.suffixes base ts).Yields e rest
  | .member object, ts, e, rest => (s.member object ts).Yields e rest
  | .arguments, ts, args, rest => (s.arguments ts).Yields args rest
  | .argumentList, ts, args, rest => (s.argumentList ts).Yields args rest

theorem TypeArguments.reads {ts rest : Tokens} {types : List Ty}
    (h : TypeArguments s ts types rest) : (s.typeArgumentList ts).Yields types rest := by
  induction h with
  | last hname htype hclose =>
    exact yields_typeArgumentList.2 ⟨_, _, yields_typeArgument.2 ⟨_, hname, htype⟩,
      .inr ⟨hclose, rfl⟩⟩
  | more hname htype hcomma _ ih =>
    exact yields_typeArgumentList.2 ⟨_, _, yields_typeArgument.2 ⟨_, hname, htype⟩,
      .inl ⟨_, _, hcomma, ih, rfl⟩⟩

open Phrase.EndsBefore in
/-- A phrase of a text without casts is read, if it ends where the next token does not go on with it. By
induction on the derivation; each part ends before the token that its rule has next. -/
theorem Derives.reads {phrase : Phrase σ} {d : Derivation} {ts rest : Tokens} {m : phrase.Meaning}
    (h : Derives s phrase d ts m rest) (hfree : s.CastFree ts) (hend : phrase.EndsBefore rest) :
    s.Reads phrase ts m rest := by
  induction h with
  | condition _ ih =>
    have hor := ih hfree (hend.mono (Nat.le_succ _))
    exact yields_expression.2 ⟨_, _, hor, .inl ⟨hend.kind_ne rfl (Nat.le_refl _), rfl, rfl⟩⟩
  | conditional hor hbool hyes hleft hnum hcolon _ hnum' ih₁ ih₂ ih₃ =>
    have hfree₂ := hfree.of_isSuffix (hyes.isSuffix.trans hor.isSuffix)
    have hfree₃ := hfree₂.of_isSuffix (hcolon.isSuffix.trans hleft.isSuffix)
    have hcondition := ih₁ hfree (of_wider hyes.kind_eq rfl (Nat.le_refl _))
    have hyes' := ih₂ hfree₂ (of_separator hcolon.kind_eq rfl)
    have hno := ih₃ hfree₃ hend
    exact yields_expression.2 ⟨_, _, hcondition,
      .inr ⟨_, _, _, _, _, hyes, hbool, hyes', hnum, hcolon, hno, hnum', rfl⟩⟩
  | level hoperand hchain ih₁ ih₂ =>
    have hleft := ih₁ hfree (hchain.endsBefore_chain hend)
    have hmore := ih₂ (hfree.of_isSuffix hoperand.isSuffix) hend
    exact yields_level.2 ⟨_, _, hleft, hmore _⟩
  | noOperation =>
    intro start
    exact yields_chain.2 (.inl ⟨fun op hop => hend.kind_ne_operator hop, rfl, rfl⟩)
  | operations hchains hop hleft hbegins hright hrole hmore ih₁ ih₂ =>
    intro start
    have hfree₁ := hfree.of_isSuffix hbegins.isSuffix
    have hoperand := ih₁ hfree₁ (hmore.endsBefore_chain hend)
    have hrest := ih₂ (hfree₁.of_isSuffix hright.isSuffix) hend
    refine yields_chain.2 (.inr ⟨_, hop, _, _, _, hbegins, hleft, hoperand, hrole, ?_⟩)
    rw [if_pos hchains]
    exact hrest start
  | operation hchains hop hleft hbegins _ hrole ih =>
    intro start
    have hoperand := ih (hfree.of_isSuffix hbegins.isSuffix) (hend.mono (Nat.le_succ _))
    refine yields_chain.2 (.inr ⟨_, hop, _, _, _, hbegins, hleft, hoperand, hrole, ?_⟩)
    rw [if_neg (ne_true_of_eq_false hchains)]
    exact ⟨rfl, rfl⟩
  | tighter hq _ ih =>
    have hle := Precedence.looseness_tighter? hq
    exact yields_operand.2 (.inl ⟨_, hq, ih hfree (hend.mono (Nat.add_le_add_right hle 3))⟩)
  | tightest hp _ ih =>
    have hle : ∀ n, 2 ≤ n + 3 := fun n => by omega
    exact yields_operand.2 (.inr ⟨hp, ih hfree (hend.mono (hle _))⟩)
  | noSign hprimary ih =>
    refine yields_unary.2 (.inl ⟨fun op _ hkind => ?_, ih hfree hend⟩)
    exact op.symbol_ne_leftParen (hprimary.opens _ hkind)
  | sign hop hbegins _ hrole ih =>
    have hoperand := ih (hfree.of_isSuffix hbegins.isSuffix) hend
    exact yields_unary.2 (.inr ⟨_, hop, _, _, hbegins, hoperand, hrole, rfl⟩)
  | cast hopen hinner => exact (hinner.false_of_castTarget hfree hopen).elim
  | group hopen hinner hobject hclose _ ih₁ ih₂ =>
    have hfree₁ := hfree.of_isSuffix hopen.isSuffix
    have hfree₂ := hfree₁.of_isSuffix (hclose.isSuffix.trans hinner.isSuffix)
    have hgroup := ih₁ hfree₁ (of_separator hclose.kind_eq rfl)
    exact yields_primary.2 (.inl ⟨_, hopen,
      yields_group.2 ⟨_, _, _, hgroup, hclose, .inr ⟨hobject, ih₂ hfree₂ hend⟩⟩⟩)
  | named hnamed hsuffixes ih₁ ih₂ =>
    have hbase := ih₁ hfree (hsuffixes.endsBefore_suffixes hend (Nat.le_refl _))
    have hmore := ih₂ (hfree.of_isSuffix hnamed.isSuffix) hend
    exact yields_primary.2 (.inr ⟨_, _, .inl hbase, hmore⟩)
  | literal hbegins hbase _ ih =>
    have hmore := ih (hfree.of_isSuffix hbegins.isSuffix) hend
    exact yields_primary.2 (.inr ⟨_, _, .inr ⟨_, hbegins, hbase⟩, hmore⟩)
  | call hname hopen _ hcallee harity ih =>
    have hargs := ih (hfree.of_isSuffix (hopen.isSuffix.trans hname.isSuffix)) arguments
    exact yields_named.2 ⟨_, _, hname, .inl ⟨_, _, _, hopen, hargs, hcallee, harity, rfl⟩⟩
  | var hname htype =>
    refine yields_named.2 ⟨_, _, hname,
      .inr ⟨hend.kind_ne_leftParen (Nat.le_refl _), hname.length_lt, ?_⟩⟩
    exact yields_plainName.2 (.inl ⟨_, htype, rfl, rfl⟩)
  | castTarget hname hvar htype hkind =>
    refine yields_named.2 ⟨_, _, hname,
      .inr ⟨hend.kind_ne_leftParen (Nat.le_refl _), hname.length_lt, ?_⟩⟩
    exact yields_plainName.2 (.inr ⟨hvar, _, htype, .inl ⟨hkind, rfl, rfl⟩⟩)
  | enumMember hname hvar htype hdot hmember hvalue =>
    refine yields_named.2 ⟨_, _, hname, .inr ⟨hdot.kind_ne nofun, hname.length_lt, ?_⟩⟩
    refine yields_plainName.2 (.inr ⟨hvar, _, htype, .inr ⟨hdot.kind_ne nofun, .inl ⟨_, rfl, ?_⟩⟩⟩)
    exact yields_enumMember.2 ⟨_, _, _, hdot, hmember, hvalue, rfl⟩
  | typeName hname hvar htype hkind henum =>
    refine yields_named.2 ⟨_, _, hname,
      .inr ⟨hend.kind_ne_leftParen (Nat.le_refl _), hname.length_lt, ?_⟩⟩
    exact yields_plainName.2 (.inr ⟨hvar, _, htype, .inr ⟨hkind, .inr ⟨henum, rfl, rfl⟩⟩⟩)
  | noSuffix =>
    exact yields_suffixes.2 (.inl ⟨hend.kind_ne rfl (Nat.le_refl _),
      hend.kind_ne rfl (Nat.le_refl _), rfl, rfl⟩)
  | index hopen htype hindex hnum hclose _ ih₁ ih₂ =>
    have hfree₁ := hfree.of_isSuffix hopen.isSuffix
    have hfree₂ := hfree₁.of_isSuffix (hclose.isSuffix.trans hindex.isSuffix)
    have hinside := ih₁ hfree₁ (of_separator hclose.kind_eq rfl)
    exact yields_suffixes.2 (.inr (.inl ⟨_, _, _, _, _, hopen, htype, hinside, hnum, hclose,
      ih₂ hfree₂ hend⟩))
  | access hdot hobject hvoid hmember hmore ih₁ ih₂ =>
    have hfree₁ := hfree.of_isSuffix hdot.isSuffix
    have haccess := ih₁ hfree₁ (hmore.endsBefore_suffixes hend (Nat.le_refl _))
    have hrest := ih₂ (hfree₁.of_isSuffix hmember.isSuffix) hend
    exact yields_suffixes.2 (.inr (.inr ⟨_, _, _, hdot, hobject, hvoid, haccess, hrest⟩))
  | methodCall hname hopen _ hcallee ih =>
    have hargs := ih (hfree.of_isSuffix (hopen.isSuffix.trans hname.isSuffix)) arguments
    exact yields_member.2 ⟨_, _, hname, .inl ⟨_, _, _, hopen, hargs, hcallee, rfl⟩⟩
  | genericCall hname hgeneric hless htypes hopen _ hcallee ih =>
    have hfree₁ := hfree.of_isSuffix (hopen.isSuffix.trans (htypes.isSuffix.trans
      (hless.isSuffix.trans hname.isSuffix)))
    have htypes' := yields_typeArguments.2 ⟨_, hless, htypes.reads⟩
    exact yields_member.2 ⟨_, _, hname, .inr (.inl ⟨hgeneric, _, _, _, _, _, htypes', hopen,
      ih hfree₁ arguments, hcallee, rfl⟩)⟩
  | property hname hgeneric hmember =>
    exact yields_member.2 ⟨_, _, hname, .inr (.inr ⟨hend.kind_ne_leftParen (Nat.le_refl _), hgeneric,
      _, _, hmember, rfl, rfl⟩)⟩
  | noArgument hclose => exact yields_arguments.2 (.inl ⟨hclose, rfl⟩)
  | someArguments hargs ih => exact yields_arguments.2 (.inr ⟨hargs.opens, ih hfree hend⟩)
  | lastArgument _ hobject hclose ih =>
    have harg := ih hfree (of_separator hclose.kind_eq rfl)
    exact yields_argumentList.2 ⟨_, _, harg, hobject, .inr ⟨hclose, rfl⟩⟩
  | argument harg hobject hcomma _ ih₁ ih₂ =>
    have hfree₂ := hfree.of_isSuffix (hcomma.isSuffix.trans harg.isSuffix)
    have harg' := ih₁ hfree (of_separator hcomma.kind_eq rfl)
    exact yields_argumentList.2 ⟨_, _, harg', hobject, .inl ⟨_, _, hcomma, ih₂ hfree₂ hend, rfl⟩⟩

/-! ## Accepted texts -/

/-- A text without casts is accepted, with a tree, exactly if all of it has a derivation with that tree,
and it has no other derivation. -/
theorem Session.accepts_iff_derives (s : Session σ) {ts : Tokens} (hfree : s.CastFree ts) :
    (∀ e, (s.wholeExpression ts).Yields e [] ↔ ∃ d, Derives s .expression d ts e []) ∧
      ∀ d d' e e', Derives s .expression d ts e [] → Derives s .expression d' ts e' [] →
        d' = d ∧ e' = e := by
  have hend : (.expression : Phrase σ).EndsBefore [] := fun _ _ hkind => nomatch hkind
  constructor
  · intro e
    constructor
    · intro h
      exact derives_expression (yields_wholeExpression.1 h).2
    · rintro ⟨d, hd⟩
      exact yields_wholeExpression.2 ⟨rfl, hd.reads hfree hend⟩
  · intro d d' e e' hd hd'
    obtain ⟨hderivation, htree, -⟩ := hd.unique hfree hend hd' hend
    exact ⟨hderivation, htree⟩

theorem Session.conjunction_derives_once :
    let s : Session Unit := Session.new.addVariable "x" .bool
    let ts : Tokens :=
      [⟨.truth true, "true"⟩, ⟨.symbol .andAnd, "&&"⟩, ⟨.identifier "x", "x"⟩]
    ∃ d e, Derives s .expression d ts e [] ∧
      ∀ d' e', Derives s .expression d' ts e' [] → d' = d ∧ e' = e := by
  intro s ts
  have hfree : s.CastFree ts := castFree_of_forall (by
    simp only [ts, List.forall_mem_cons, List.not_mem_nil, false_implies, implies_true, and_true]
    refine ⟨nofun, nofun, fun name hname hvar => ?_⟩
    cases hname
    cases hvar)
  obtain ⟨hiff, hunique⟩ := accepts_iff_derives s hfree
  obtain ⟨e, rest, he⟩ : ∃ e rest, (s.wholeExpression ts).Yields e rest := by decide +kernel
  obtain ⟨rfl, -⟩ := yields_wholeExpression.1 he
  obtain ⟨d, hd⟩ := (hiff e).1 he
  exact ⟨d, e, hd, fun d' e' hd' => hunique d d' e e' hd hd'⟩

end HostExpr
