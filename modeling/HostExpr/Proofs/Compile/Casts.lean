-- SUMMARY: How much of a text the operand of a cast takes.
import HostExpr.Proofs.Compile.Stops
import HostExpr.Proofs.Compile.Trees

/-!
# Operands of casts

A type name in parentheses that no variable hides is a cast wherever it stands in a text that compiles.
Its operand is the whole expression after it. That expression is followed by a token that ends
expressions, with one exception: where it ends in a comparison, it stops before another one, and the cast
becomes an operand of that one (`cast_takes_expression`).

The proof follows the functions of the grammar to the cast. On the way back out, the tokens that a
function leaves are what the operand has left, or the next token there is one that goes on with an
expression or ends it.
-/

namespace HostExpr

variable {σ : Type} {s : Session σ}

/-! ## The token after an expression -/

namespace Tokens

variable {ts next : Tokens} {symbol : Symbol}

/-- The next token is one that ends expressions: a closing bracket, a comma, a colon or the end. -/
def EndsExpression (ts : Tokens) : Prop :=
  ts = [] ∨ ∃ symbol ∈ [Symbol.rightParen, .rightBracket, .comma, .colon], ts.kind = .symbol symbol

/-- The next token ends expressions, or it goes on with what was read. -/
def Follows (ts : Tokens) : Prop :=
  ts.EndsExpression ∨
    ∃ symbol width, ts.kind = .symbol symbol ∧ symbol.width? = some width ∧ 0 < width

theorem Begins.endsExpression (h : ts.Begins (.symbol symbol) next)
    (hmem : symbol ∈ [Symbol.rightParen, .rightBracket, .comma, .colon]) : ts.EndsExpression :=
  .inr ⟨symbol, hmem, h.kind_eq⟩

theorem follows_of_width {width : Nat} (hkind : ts.kind = .symbol symbol)
    (hwidth : symbol.width? = some (width + 1)) : ts.Follows :=
  .inr ⟨symbol, width + 1, hkind, hwidth, Nat.succ_pos _⟩

/-- A position in the tokens is the first one or comes after the first token. -/
theorem Begins.eq_or_suffix {opened : Tokens} {token : Token} (h : ts.Begins token next)
    (hopened : opened <:+ ts) : opened = ts ∨ opened <:+ next := by
  obtain ⟨text, rfl⟩ := h
  exact List.suffix_cons_iff.1 hopened

/-- A position in the tokens is in the front of them or in what comes after it. -/
theorem length_lt_or_suffix {opened middle : Tokens} (hopened : opened <:+ ts)
    (hmiddle : middle <:+ ts) : middle.length < opened.length ∨ opened <:+ middle :=
  (Nat.lt_or_ge middle.length opened.length).imp id
    (List.suffix_of_suffix_length_le hopened hmiddle)

end Tokens

/-- No symbol is wider than a whole expression. -/
theorem Symbol.width?_lt {symbol : Symbol} {width : Nat} (h : symbol.width? = some width) :
    width < 14 := by
  cases symbol <;> cases h <;> decide

theorem Expr.IsNode.of_child {root child node : Expr σ} (hchild : child ∈ root.children)
    (hnode : child.IsNode node) : root.IsNode node :=
  (IsNode.child .root hchild).trans hnode

/-! ## What is built on an expression keeps it -/

/-- The tree of a phrase that goes on from an expression has that expression as a node. -/
def Phrase.Keeps : (phrase : Phrase σ) → phrase.Meaning → Prop
  | .chain _ left, e | .suffixes left, e | .member left, e => e.IsNode left
  | _, _ => True

theorem Derives.keeps {phrase : Phrase σ} {d : Derivation} {ts rest : Tokens} {m : phrase.Meaning}
    (h : Derives s phrase d ts m rest) : phrase.Keeps m := by
  induction h with
  | noOperation | noSuffix => exact .root
  | @operations p op _ _ _ _ _ _ left right =>
    rename_i ih
    refine ih.trans (.child .root ?_)
    rw [op.children_combine]
    exact List.mem_cons_self
  | @operation p op _ _ _ _ left right =>
    refine .child .root ?_
    rw [op.children_combine]
    exact List.mem_cons_self
  | index _ _ _ _ _ _ _ ih => exact ih.trans (.child .root List.mem_cons_self)
  | access _ _ _ _ _ ih₁ ih₂ => exact ih₂.trans ih₁
  | methodCall | genericCall | property => exact .child .root List.mem_cons_self
  | _ => trivial

namespace Session

open Tokens

/-! ## Casts in the tokens -/

/-- The tokens begin with the name of a type in parentheses that is not the name of a variable. -/
def BeginsCast (s : Session σ) (ts : Tokens) (type : Ty) (after : Tokens) : Prop :=
  ∃ inside close name, ts.Begins (.symbol .leftParen) inside ∧ inside.Begins (.identifier name) close ∧
    close.Begins (.symbol .rightParen) after ∧ s.vars.find? name = none ∧
    s.types.find? name = some type

namespace BeginsCast

variable {opened after : Tokens} {type : Ty}

theorem kind_eq (h : s.BeginsCast opened type after) : opened.kind = .symbol .leftParen := by
  obtain ⟨inside, close, name, hopen, -⟩ := h
  exact hopen.kind_eq

/-- A cast is not at a token of another kind, and so comes after it. -/
theorem skip (h : s.BeginsCast opened type after) {ts next : Tokens} {token : Token}
    (hbegins : ts.Begins token next) (hne : token.kind ≠ .symbol .leftParen) (hopened : opened <:+ ts) :
    opened <:+ next := by
  rcases hbegins.eq_or_suffix hopened with rfl | hnext
  · exact absurd (hbegins.kind_eq.symm.trans h.kind_eq) hne
  · exact hnext

/-- The name in parentheses is read as a type that waits for an operand. -/
theorem yields_castTarget (h : s.BeginsCast opened type after) :
    ∃ inside close, opened.Begins (.symbol .leftParen) inside ∧
      inside.kind ≠ .symbol .rightParen ∧
      (s.expression inside).Yields (.castTarget type) close ∧
      close.Begins (.symbol .rightParen) after := by
  obtain ⟨inside, close, name, hopen, hname, hclose, hvar, htype⟩ := h
  have hplain : (s.plainName name inside close hname.length_lt).Yields (.castTarget type) close :=
    yields_plainName.2 (.inr ⟨hvar, type, htype, .inl ⟨hclose.kind_eq, rfl, rfl⟩⟩)
  have hnamed : (s.named inside).Yields (.castTarget type) close :=
    yields_named.2 ⟨name, close, hname, .inr ⟨hclose.kind_ne nofun, _, hplain⟩⟩
  have hsuffixes : (s.suffixes (.castTarget type) close).Yields (.castTarget type) close :=
    yields_suffixes.2 (.inl ⟨hclose.kind_ne nofun, hclose.kind_ne nofun, rfl, rfl⟩)
  have hprimary : (s.primary inside).Yields (.castTarget type) close :=
    yields_primary.2 (.inr ⟨_, _, .inl hnamed, hsuffixes⟩)
  have hsign : ∀ op ∈ UnaryOp.all, inside.kind ≠ .symbol op.symbol := by
    intro op _ hkind
    cases hname.kind_eq.symm.trans hkind
  have hunary := yields_unary.2 (.inl ⟨hsign, hprimary⟩)
  refine ⟨inside, close, hopen, fun hkind => ?_, ?_, hclose⟩
  · cases hname.kind_eq.symm.trans hkind
  · exact yields_expression_of_unary hunary (.of_separator hclose.kind_eq rfl)

/-- What is in the parentheses is the type, and it ends where they close. -/
theorem inside_eq (h : s.BeginsCast opened type after) {inside close next : Tokens} {inner : Expr σ}
    (hopen : opened.Begins (.symbol .leftParen) inside)
    (hinner : (s.expression inside).Yields inner close)
    (hclose : close.Begins (.symbol .rightParen) next) : inner = .castTarget type ∧ next = after := by
  obtain ⟨inside', close', hopen', -, hyields, hclose'⟩ := h.yields_castTarget
  obtain ⟨-, rfl⟩ := hopen.unique hopen'
  obtain ⟨rfl, rfl⟩ := hyields.unique hinner
  exact ⟨rfl, (hclose.unique hclose').2⟩

/-- The parenthesis of a cast opens no arguments: the type in it is no object. -/
theorem not_yields_arguments (h : s.BeginsCast opened type after) {inside rest : Tokens}
    {args : List (Expr σ)} (hopen : opened.Begins (.symbol .leftParen) inside) :
    ¬ (s.arguments inside).Yields args rest := by
  obtain ⟨inside', close, hopen', hkind, hyields, -⟩ := h.yields_castTarget
  obtain ⟨-, rfl⟩ := hopen.unique hopen'
  intro hargs
  rcases yields_arguments.1 hargs with ⟨hclose, -⟩ | ⟨-, hargs⟩
  · exact hkind hclose.kind_eq
  · obtain ⟨arg, middle, harg, hobject, -⟩ := yields_argumentList.1 hargs
    obtain ⟨rfl, -⟩ := hyields.unique harg
    cases hobject

/-- Where a call takes arguments, a cast comes after the opening parenthesis. -/
theorem skip_arguments (h : s.BeginsCast opened type after) {ts inside rest : Tokens}
    {args : List (Expr σ)} (hopen : ts.Begins (.symbol .leftParen) inside)
    (hargs : (s.arguments inside).Yields args rest) (hopened : opened <:+ ts) : opened <:+ inside := by
  rcases hopen.eq_or_suffix hopened with rfl | hinside
  · exact absurd hargs (h.not_yields_arguments hopen)
  · exact hinside

/-- No cast is among type arguments. -/
theorem skip_typeArguments (h : s.BeginsCast opened type after) {ts rest : Tokens} {types : List Ty}
    (htypes : TypeArguments s ts types rest) (hopened : opened <:+ ts) : opened <:+ rest := by
  induction htypes with
  | last hname _ hclose => exact h.skip hclose nofun (h.skip hname nofun hopened)
  | more hname _ hcomma _ ih => exact ih (h.skip hcomma nofun (h.skip hname nofun hopened))

end BeginsCast

/-! ## The operand of a cast -/

/-- The whole expression after a cast is its operand, in one of the trees of a phrase. It leaves what the
phrase leaves, or it is followed by a token that goes on with an expression or ends it. -/
def Takes (s : Session σ) (after : Tokens) (type : Ty) (isNode : Expr σ → Prop) (rest : Tokens) : Prop :=
  ∃ operand left, (s.expression after).Yields operand left ∧ operand.isObject ∧
    isNode (.convert type operand) ∧ (left = rest ∨ left.Follows)

theorem Takes.outward {after rest rest' : Tokens} {type : Ty} {isNode isNode' : Expr σ → Prop}
    (h : s.Takes after type isNode rest) (hnode : ∀ e, isNode e → isNode' e)
    (hrest : rest = rest' ∨ rest.Follows) : s.Takes after type isNode' rest' := by
  obtain ⟨operand, left, hoperand, hobject, hmem, rfl | hfollows⟩ := h
  · exact ⟨operand, left, hoperand, hobject, hnode _ hmem, hrest⟩
  · exact ⟨operand, left, hoperand, hobject, hnode _ hmem, .inr hfollows⟩

section

variable {opened after : Tokens} {type : Ty}

theorem chain_follows {p : Precedence} {start ts rest : Tokens} {left e : Expr σ}
    (h : (s.chain p start left ts).Yields e rest) : ts = rest ∨ ts.Follows := by
  rcases yields_chain.1 h with ⟨-, -, rfl⟩ | ⟨op, hop, next, right, after, hbegins, -⟩
  · exact .inl rfl
  · exact .inr (follows_of_width hbegins.kind_eq (Symbol.width?_operator hop))

theorem suffixes_follows {ts rest : Tokens} {base e : Expr σ}
    (h : (s.suffixes base ts).Yields e rest) : ts = rest ∨ ts.Follows := by
  rcases yields_suffixes.1 h with ⟨-, -, -, rfl⟩ | ⟨inside, type, index, close, after, hopen, -⟩ |
    ⟨name, access, after, hdot, -⟩
  · exact .inl rfl
  · exact .inr (follows_of_width hopen.kind_eq rfl)
  · exact .inr (follows_of_width hdot.kind_eq rfl)

/-- What comes after the left operand keeps it as a node. -/
theorem isNode_chain {p : Precedence} {start ts rest : Tokens} {left e : Expr σ}
    (h : (s.chain p start left ts).Yields e rest) : e.IsNode left := by
  obtain ⟨d, hd⟩ := derives_chain h
  exact hd.keeps

theorem isNode_suffixes {ts rest : Tokens} {base e : Expr σ}
    (h : (s.suffixes base ts).Yields e rest) : e.IsNode base := by
  obtain ⟨d, hd⟩ := derives_suffixes h
  exact hd.keeps

mutual

theorem takes_expression (hcast : s.BeginsCast opened type after) {ts rest : Tokens} {e : Expr σ}
    (h : (s.expression ts).Yields e rest) (hopened : opened <:+ ts)
    (hlt : rest.length < opened.length) : s.Takes after type e.IsNode rest := by
  obtain ⟨condition, middle, hcondition, h⟩ := yields_expression.1 h
  obtain ⟨d, hd⟩ := derives_level hcondition
  rcases h with ⟨-, rfl, rfl⟩ |
    ⟨yes, left, colon, no, right, hyes, -, hleft, -, hcolon, hright, -, rfl⟩
  · exact takes_level hcast hcondition hopened hlt
  · have := hcondition.length_lt
    have := hyes.length_lt
    have := hleft.length_lt
    have := hcolon.length_lt
    obtain ⟨d', hd'⟩ := derives_expression hleft
    rcases length_lt_or_suffix hopened hd.isSuffix with hlt | hopened
    · refine (takes_level hcast hcondition hopened hlt).outward ?_
        (.inr (follows_of_width hyes.kind_eq rfl))
      exact fun _ => .of_child (by simp [Expr.children])
    rcases length_lt_or_suffix (hcast.skip hyes nofun hopened) hd'.isSuffix with hlt | hopened'
    · refine (takes_expression hcast hleft (hcast.skip hyes nofun hopened) hlt).outward ?_
        (.inr (.inl (hcolon.endsExpression (by decide))))
      exact fun _ => .of_child (by simp [Expr.children])
    · refine (takes_expression hcast hright (hcast.skip hcolon nofun hopened') hlt).outward ?_
        (.inl rfl)
      exact fun _ => .of_child (by simp [Expr.children])
termination_by 32 * ts.length + 23
decreasing_by
  all_goals have := Precedence.looseness_le .or
  all_goals omega

theorem takes_level (hcast : s.BeginsCast opened type after) {p : Precedence} {ts rest : Tokens}
    {e : Expr σ} (h : (s.level p ts).Yields e rest) (hopened : opened <:+ ts)
    (hlt : rest.length < opened.length) : s.Takes after type e.IsNode rest := by
  obtain ⟨left, middle, hleft, hchain⟩ := yields_level.1 h
  have := hleft.length_lt
  obtain ⟨d, hd⟩ := derives_operand hleft
  rcases length_lt_or_suffix hopened hd.isSuffix with hlt | hopened
  · exact (takes_operand hcast hleft hopened hlt).outward (fun _ => (isNode_chain hchain).trans)
      (chain_follows hchain)
  · exact takes_chain hcast hchain hopened hlt
termination_by 32 * ts.length + 2 * p.looseness + 4

theorem takes_operand (hcast : s.BeginsCast opened type after) {p : Precedence} {ts rest : Tokens}
    {e : Expr σ} (h : (s.operand p ts).Yields e rest) (hopened : opened <:+ ts)
    (hlt : rest.length < opened.length) : s.Takes after type e.IsNode rest := by
  rcases yields_operand.1 h with ⟨q, hq, h⟩ | ⟨-, h⟩
  · have := Precedence.looseness_tighter? hq
    exact takes_level hcast h hopened hlt
  · exact takes_unary hcast h hopened hlt
termination_by 32 * ts.length + 2 * p.looseness + 3

theorem takes_chain (hcast : s.BeginsCast opened type after) {p : Precedence} {start ts rest : Tokens}
    {left e : Expr σ} (h : (s.chain p start left ts).Yields e rest) (hopened : opened <:+ ts)
    (hlt : rest.length < opened.length) : s.Takes after type e.IsNode rest := by
  rcases yields_chain.1 h with ⟨-, -, rfl⟩ |
    ⟨op, hop, next, right, middle, hbegins, -, hright, -, h⟩
  · exact absurd hopened.length_le (Nat.not_le.2 hlt)
  · have := hbegins.length_lt
    have := hright.length_lt
    have := Precedence.looseness_le p
    obtain ⟨d, hd⟩ := derives_operand hright
    have hsymbol : (Token.symbol op.symbol).kind ≠ .symbol .leftParen := by
      intro hkind
      have hwidth := Symbol.width?_operator hop
      rw [TokenKind.symbol.inj hkind] at hwidth
      cases hwidth
    have hopened := hcast.skip hbegins hsymbol hopened
    have hnode : ∀ n, right.IsNode n → (op.combine left right).IsNode n := by
      refine fun n => .of_child ?_
      rw [op.children_combine]
      exact List.mem_cons_of_mem _ List.mem_cons_self
    split at h
    · rcases length_lt_or_suffix hopened hd.isSuffix with hlt | hopened
      · refine (takes_operand hcast hright hopened hlt).outward ?_ (chain_follows h)
        exact fun n hn => (isNode_chain h).trans (hnode n hn)
      · exact takes_chain hcast h hopened hlt
    · obtain ⟨rfl, rfl⟩ := h
      exact (takes_operand hcast hright hopened hlt).outward hnode (.inl rfl)
termination_by 32 * ts.length

theorem takes_unary (hcast : s.BeginsCast opened type after) {ts rest : Tokens} {e : Expr σ}
    (h : (s.unary ts).Yields e rest) (hopened : opened <:+ ts) (hlt : rest.length < opened.length) :
    s.Takes after type e.IsNode rest := by
  rcases yields_unary.1 h with ⟨-, h⟩ | ⟨op, hop, next, operand, hbegins, hoperand, -, rfl⟩
  · exact takes_primary hcast h hopened hlt
  · have := hbegins.length_lt
    have hopened := hcast.skip hbegins (fun h => op.symbol_ne_leftParen (TokenKind.symbol.inj h)) hopened
    refine (takes_primary hcast hoperand hopened hlt).outward (fun _ => .of_child ?_) (.inl rfl)
    rw [op.children_apply]
    exact List.mem_cons_self
termination_by 32 * ts.length + 2

/-- At the parenthesis of the cast itself the operand is read; elsewhere the cast is in a part. -/
theorem takes_primary (hcast : s.BeginsCast opened type after) {ts rest : Tokens} {e : Expr σ}
    (h : (s.primary ts).Yields e rest) (hopened : opened <:+ ts) (hlt : rest.length < opened.length) :
    s.Takes after type e.IsNode rest := by
  rcases yields_primary.1 h with ⟨inside, hopen, h⟩ | ⟨base, middle, (hbase | ⟨token, htoken, hbase⟩), h⟩
  · have := hopen.length_lt
    obtain ⟨inner, close, next, hinner, hclose, h⟩ := yields_group.1 h
    have := hinner.length_lt
    have := hclose.length_lt
    rcases hopen.eq_or_suffix hopened with rfl | hopened
    · obtain ⟨rfl, rfl⟩ := hcast.inside_eq hopen hinner hclose
      rcases h with ⟨type', operand, htype, hoperand, hobject, rfl⟩ | ⟨hobject, -⟩
      · cases htype
        exact ⟨operand, rest, hoperand, hobject, .root, .inl rfl⟩
      · cases hobject
    obtain ⟨d, hd⟩ := derives_expression hinner
    rcases length_lt_or_suffix hopened hd.isSuffix with hlt' | hopened'
    · have hinside := takes_expression hcast hinner hopened hlt'
      rcases h with ⟨type', operand, rfl, -⟩ | ⟨-, h⟩
      · obtain ⟨_, _, _, _, hnode, -⟩ := hinside
        obtain heq | ⟨child, hchild, -⟩ := Expr.isNode_iff.1 hnode
        · cases heq
        · cases hchild
      · exact hinside.outward (fun _ => (isNode_suffixes h).trans)
          (.inr (.inl (hclose.endsExpression (by decide))))
    · have hopened := hcast.skip hclose nofun hopened'
      rcases h with ⟨type', operand, -, hoperand, -, rfl⟩ | ⟨-, h⟩
      · exact (takes_expression hcast hoperand hopened hlt).outward
          (fun _ => .of_child List.mem_cons_self) (.inl rfl)
      · exact takes_suffixes hcast h hopened hlt
  · have := hbase.length_lt
    obtain ⟨d, hd⟩ := derives_named hbase
    rcases length_lt_or_suffix hopened hd.isSuffix with hlt | hopened
    · exact (takes_named hcast hbase hopened hlt).outward (fun _ => (isNode_suffixes h).trans)
        (suffixes_follows h)
    · exact takes_suffixes hcast h hopened hlt
  · have := htoken.length_lt
    exact takes_suffixes hcast h (hcast.skip htoken ((Parsed.literal_kind_ne hbase).2 _) hopened) hlt
termination_by 32 * ts.length + 1

theorem takes_named (hcast : s.BeginsCast opened type after) {ts rest : Tokens} {e : Expr σ}
    (h : (s.named ts).Yields e rest) (hopened : opened <:+ ts) (hlt : rest.length < opened.length) :
    s.Takes after type e.IsNode rest := by
  obtain ⟨name, middle, hname, h⟩ := yields_named.1 h
  have hopened := hcast.skip hname nofun hopened
  rcases h with ⟨inside, args, callee, hparen, hargs, -, -, rfl⟩ | ⟨-, _, h⟩
  · have := hname.length_lt
    have := hparen.length_lt
    refine (takes_arguments hcast hargs (hcast.skip_arguments hparen hargs hopened) hlt).outward ?_
      (.inl rfl)
    rintro n ⟨arg, harg, hnode⟩
    exact .of_child harg hnode
  · -- A name without arguments has no parenthesis in it.
    have hrest : opened <:+ rest := by
      rcases yields_plainName.1 h with ⟨type, -, -, rfl⟩ | ⟨-, type, -, h⟩
      · exact hopened
      · rcases h with ⟨-, -, rfl⟩ | ⟨-, ⟨enum, -, h⟩ | ⟨-, -, rfl⟩⟩
        · exact hopened
        · obtain ⟨place, member, value, hdot, hmember, -, -⟩ := yields_enumMember.1 h
          exact hcast.skip hmember nofun (hcast.skip hdot nofun hopened)
        · exact hopened
    exact absurd hrest.length_le (Nat.not_le.2 hlt)
termination_by 32 * ts.length

theorem takes_suffixes (hcast : s.BeginsCast opened type after) {ts rest : Tokens} {base e : Expr σ}
    (h : (s.suffixes base ts).Yields e rest) (hopened : opened <:+ ts)
    (hlt : rest.length < opened.length) : s.Takes after type e.IsNode rest := by
  rcases yields_suffixes.1 h with ⟨-, -, -, rfl⟩ |
    ⟨inside, element, index, close, next, hopen, -, hindex, -, hclose, h⟩ |
    ⟨name, access, next, hdot, -, -, haccess, h⟩
  · exact absurd hopened.length_le (Nat.not_le.2 hlt)
  · have := hopen.length_lt
    have := hindex.length_lt
    have := hclose.length_lt
    obtain ⟨d, hd⟩ := derives_expression hindex
    have hopened := hcast.skip hopen nofun hopened
    rcases length_lt_or_suffix hopened hd.isSuffix with hlt | hopened
    · refine (takes_expression hcast hindex hopened hlt).outward (fun _ hnode => ?_)
        (.inr (.inl (hclose.endsExpression (by decide))))
      exact (isNode_suffixes h).trans (.of_child (List.mem_cons_of_mem _ List.mem_cons_self) hnode)
    · exact takes_suffixes hcast h (hcast.skip hclose nofun hopened) hlt
  · have := hdot.length_lt
    have := haccess.length_lt
    obtain ⟨d, hd⟩ := derives_member haccess
    have hopened := hcast.skip hdot nofun hopened
    rcases length_lt_or_suffix hopened hd.isSuffix with hlt | hopened
    · exact (takes_member hcast haccess hopened hlt).outward (fun _ => (isNode_suffixes h).trans)
        (suffixes_follows h)
    · exact takes_suffixes hcast h hopened hlt
termination_by 32 * ts.length

theorem takes_member (hcast : s.BeginsCast opened type after) {ts rest : Tokens} {object e : Expr σ}
    (h : (s.member object ts).Yields e rest) (hopened : opened <:+ ts)
    (hlt : rest.length < opened.length) : s.Takes after type e.IsNode rest := by
  obtain ⟨name, middle, hname, h⟩ := yields_member.1 h
  have := hname.length_lt
  have hopened := hcast.skip hname nofun hopened
  rcases h with ⟨inside, args, callee, hparen, hargs, -, rfl⟩ |
    ⟨-, typeArgs, bracket, inside, args, callee, htypes, hparen, hargs, -, rfl⟩ |
    ⟨-, -, member, others, -, rfl, rfl⟩
  · have := hparen.length_lt
    refine (takes_arguments hcast hargs (hcast.skip_arguments hparen hargs hopened) hlt).outward ?_
      (.inl rfl)
    rintro n ⟨arg, harg, hnode⟩
    exact .of_child (List.mem_cons_of_mem _ harg) hnode
  · have := htypes.length_lt
    have := hparen.length_lt
    obtain ⟨types, hless, htypes⟩ := yields_typeArguments.1 htypes
    have hopened := hcast.skip_typeArguments (typeArguments_of_yields htypes)
      (hcast.skip hless nofun hopened)
    refine (takes_arguments hcast hargs (hcast.skip_arguments hparen hargs hopened) hlt).outward ?_
      (.inl rfl)
    rintro n ⟨arg, harg, hnode⟩
    exact .of_child (List.mem_cons_of_mem _ harg) hnode
  · exact absurd hopened.length_le (Nat.not_le.2 hlt)
termination_by 32 * ts.length

theorem takes_arguments (hcast : s.BeginsCast opened type after) {ts rest : Tokens}
    {args : List (Expr σ)} (h : (s.arguments ts).Yields args rest) (hopened : opened <:+ ts)
    (hlt : rest.length < opened.length) :
    s.Takes after type (fun e => ∃ arg ∈ args, arg.IsNode e) rest := by
  rcases yields_arguments.1 h with ⟨hclose, rfl⟩ | ⟨-, h⟩
  · exact absurd (hcast.skip hclose nofun hopened).length_le (Nat.not_le.2 hlt)
  · exact takes_argumentList hcast h hopened hlt
termination_by 32 * ts.length + 25

theorem takes_argumentList (hcast : s.BeginsCast opened type after) {ts rest : Tokens}
    {args : List (Expr σ)} (h : (s.argumentList ts).Yields args rest) (hopened : opened <:+ ts)
    (hlt : rest.length < opened.length) :
    s.Takes after type (fun e => ∃ arg ∈ args, arg.IsNode e) rest := by
  obtain ⟨arg, middle, harg, -, h⟩ := yields_argumentList.1 h
  have := harg.length_lt
  obtain ⟨d, hd⟩ := derives_expression harg
  rcases length_lt_or_suffix hopened hd.isSuffix with hlt' | hopened'
  · have hends : middle.EndsExpression := by
      rcases h with ⟨more, others, hcomma, -⟩ | ⟨hclose, -⟩
      · exact hcomma.endsExpression (by decide)
      · exact hclose.endsExpression (by decide)
    refine (takes_expression hcast harg hopened hlt').outward (fun _ hnode => ?_) (.inr (.inl hends))
    rcases h with ⟨more, others, -, -, rfl⟩ | ⟨-, rfl⟩ <;> exact ⟨arg, List.mem_cons_self, hnode⟩
  · rcases h with ⟨more, others, hcomma, hothers, rfl⟩ | ⟨hclose, rfl⟩
    · have := hcomma.length_lt
      refine (takes_argumentList hcast hothers (hcast.skip hcomma nofun hopened') hlt).outward ?_
        (.inl rfl)
      rintro n ⟨other, hother, hnode⟩
      exact ⟨other, List.mem_cons_of_mem _ hother, hnode⟩
    · exact absurd (hcast.skip hclose nofun hopened').length_le (Nat.not_le.2 hlt)
termination_by 32 * ts.length + 24

end

end

/-- Every cast of a text that compiles has the whole expression after it as its operand. The token after
the operand ends expressions, unless it is the operator of a level that takes one operation and the
operand ends in an operation of that level. -/
theorem cast_takes_expression {source : String} {c : Compiled σ} {text : Lexed}
    (hcompile : (s.compile source).value = .ok c) (hlex : lex source = .ok text)
    {opened after : Tokens} {type : Ty} (hopened : opened <:+ text.tokens)
    (hcast : s.BeginsCast opened type after) :
    ∃ operand rest, (s.expression after).Yields operand rest ∧
      (s.primary opened).Yields (.convert type operand) rest ∧
      c.root.IsNode (.convert type operand) ∧
      (rest.EndsExpression ∨ ∃ p op, op ∈ p.operators ∧ rest.kind = .symbol op.symbol ∧
        p.chains = false ∧ operand.EndsIn p) := by
  obtain ⟨text', hlex', hroot⟩ := yields_of_compile hcompile
  cases hlex.symm.trans hlex'
  obtain ⟨inside, close, hopen, -, hinside, hclose⟩ := hcast.yields_castTarget
  obtain ⟨operand, rest, hoperand, hobject, hnode, hrest⟩ :=
    takes_expression hcast hroot hopened (Nat.zero_lt_of_lt hopen.length_lt)
  have hprimary : (s.primary opened).Yields (.convert type operand) rest :=
    yields_primary.2 (.inl ⟨inside, hopen, yields_group.2
      ⟨_, close, after, hinside, hclose, .inl ⟨type, operand, rfl, hoperand, hobject, rfl⟩⟩⟩)
  refine ⟨operand, rest, hoperand, hprimary, hnode, ?_⟩
  rcases hrest with rfl | hends | ⟨symbol, width, hkind, hwidth, hpos⟩
  · exact .inl (.inl rfl)
  · exact .inl hends
  · obtain ⟨p, op, hop, rfl, hchains, hends⟩ :=
      stops_expression hoperand symbol width hkind hwidth hpos (Symbol.width?_lt hwidth)
    exact .inr ⟨p, op, hop, hkind, hchains, hends⟩

/-! ## A comparison after a cast -/

/-- The session in which `x` is an integer. -/
def withInt : Session Unit := Session.new.addVariable "x" .int

/-- A cast to an integer before some tokens. -/
def intCast (after : Tokens) : Tokens :=
  ⟨.symbol .leftParen, "("⟩ :: ⟨.identifier "int", "int"⟩ :: ⟨.symbol .rightParen, ")"⟩ :: after

theorem beginsCast_intCast (after : Tokens) : withInt.BeginsCast (intCast after) .int after :=
  ⟨_, _, "int", ⟨"(", rfl⟩, ⟨"int", rfl⟩, ⟨")", rfl⟩, rfl, rfl⟩

theorem cast_takes_expression_sum :
    let after : Tokens := [⟨.identifier "x", "x"⟩, ⟨.symbol .plus, "+"⟩, ⟨.identifier "x", "x"⟩]
    let root : Expr Unit := .convert .int (.binary .add (.var "x" .int) (.var "x" .int))
    ∃ operand rest, (withInt.expression after).Yields operand rest ∧
      (withInt.primary (intCast after)).Yields (.convert .int operand) rest ∧
      root.IsNode (.convert .int operand) ∧
      (rest.EndsExpression ∨ ∃ p op, op ∈ p.operators ∧ rest.kind = .symbol op.symbol ∧
        p.chains = false ∧ operand.EndsIn p) := by
  intro after root
  have hlex : lex "(int)x + x" = .ok ⟨(([0, 1, 4, 5, 7, 9] : List Nat).zip (intCast after)), 10⟩ := by
    with_unfolding_all rfl
  have hcompile : (withInt.compile "(int)x + x").value = .ok ⟨"(int)x + x", root⟩ := by
    with_unfolding_all rfl
  exact cast_takes_expression hcompile hlex List.suffix_rfl (beginsCast_intCast after)

/-- A comparison after a comparison is applied to the cast before them. -/
theorem not_cast_endsExpression :
    ¬ ∀ source c text, (withInt.compile source).value = .ok c → lex source = .ok text →
      ∀ opened after type, opened <:+ text.tokens → withInt.BeginsCast opened type after →
      ∀ operand rest, (withInt.primary opened).Yields (.convert type operand) rest →
        rest.EndsExpression := by
  intro hclaim
  let rest : Tokens := [⟨.symbol .equalEqual, "=="⟩, ⟨.identifier "x", "x"⟩]
  let after : Tokens :=
    ⟨.identifier "x", "x"⟩ :: ⟨.symbol .equalEqual, "=="⟩ :: ⟨.identifier "x", "x"⟩ :: rest
  let operand : Expr Unit := .comparison .equal (.var "x" .int) (.var "x" .int)
  have hlex : lex "(int)x == x == x" =
      .ok ⟨(([0, 1, 4, 5, 7, 10, 12, 15] : List Nat).zip (intCast after)), 16⟩ := by
    with_unfolding_all rfl
  have hcompile : (withInt.compile "(int)x == x == x").value =
      .ok ⟨"(int)x == x == x", .comparison .equal (.convert .int operand) (.var "x" .int)⟩ := by
    with_unfolding_all rfl
  have hyields : (withInt.primary (intCast after)).Yields (.convert .int operand) rest :=
    ⟨_, by decide, by with_unfolding_all rfl⟩
  rcases hclaim _ _ _ hcompile hlex _ _ _ List.suffix_rfl (beginsCast_intCast after) _ _ hyields with
    hnil | ⟨symbol, hmem, hkind⟩
  · exact List.cons_ne_nil _ _ hnil
  · cases hkind
    revert hmem
    decide

end Session

end HostExpr
