-- SUMMARY: The grammar with its calls left open, and which calls each of its functions makes.
import HostExpr.Proofs.Compile.Soundness
import HostExpr.Proofs.Compile.Unambiguous

/-!
# Calls between the functions of the grammar

`Session.readWith` is the grammar with every call of one of its functions left to a parameter. A row of
operations, of suffixes or of arguments goes on by a call as well, in place of the next round of a loop.

A function only makes calls on tokens of which one at least has been used since it was called itself, and
calls of a tighter part of the grammar (`Reader.MayCall`): whatever else the parameter does, the outcome is
that of the function if these calls are made by the functions themselves (`Session.readWith_eq`).
-/

namespace HostExpr

/-! ## Using tokens -/

/-- At least one token at the front has been used, and the rest is left. -/
def Tokens.Advances (ts rest : Tokens) : Prop := ∃ used, used ≠ [] ∧ ts = used ++ rest

namespace Tokens

variable {ts middle rest : Tokens}

theorem advances_of_isSuffix (h : rest <:+ ts) (hlt : rest.length < ts.length) : ts.Advances rest := by
  obtain ⟨used, rfl⟩ := h
  refine ⟨used, ?_, rfl⟩
  rintro rfl
  exact Nat.lt_irrefl _ hlt

theorem Begins.advances {token : Token} (h : ts.Begins token rest) : ts.Advances rest :=
  advances_of_isSuffix h.isSuffix h.length_lt

theorem Advances.isSuffix (h : ts.Advances rest) : rest <:+ ts := by
  obtain ⟨used, -, rfl⟩ := h
  exact List.suffix_append used rest

theorem Advances.length_lt (h : ts.Advances rest) : rest.length < ts.length := by
  obtain ⟨used, hused, rfl⟩ := h
  have hpos := List.length_pos_iff.2 hused
  rw [List.length_append]
  omega

theorem Advances.of_isSuffix (h : ts.Advances middle) (hrest : rest <:+ middle) : ts.Advances rest :=
  advances_of_isSuffix (hrest.trans h.isSuffix) (Nat.lt_of_le_of_lt hrest.length_le h.length_lt)

theorem Advances.trans (h : ts.Advances middle) (hrest : middle.Advances rest) : ts.Advances rest :=
  h.of_isSuffix hrest.isSuffix

end Tokens

/-! ## Readers -/

/-- The functions of the grammar, and the loops in them. -/
inductive Reader (σ : Type) where
  | expression
  | level (p : Precedence)
  /-- The operations that are left of a level, which began at `start`, after an expression. -/
  | chain (p : Precedence) (start : Tokens) (left : Expr σ)
  | unary
  | primary
  | named
  /-- The suffixes that are left after an expression. -/
  | suffixes (base : Expr σ)
  | member (object : Expr σ)
  /-- Arguments with both parentheses. -/
  | arguments
  /-- What is left of arguments after one of them, with the closing parenthesis. -/
  | moreArguments
  /-- Type arguments with both brackets. -/
  | typeArguments
  /-- What is left of type arguments after one of them, with the closing bracket. -/
  | moreTypeArguments

namespace Reader

variable {σ : Type}

/-- What a reader results in. -/
abbrev Result : Reader σ → Type
  | arguments | moreArguments => List (Expr σ)
  | typeArguments | moreTypeArguments => List Ty
  | _ => Expr σ

/-- What is left after a reader is shorter than this. -/
abbrev bound : Reader σ → Tokens → Nat
  | chain _ _ _, ts | suffixes _, ts => ts.length + 1
  | _, ts => ts.length

/-- How loose a part of the grammar the reader reads. A reader that uses a token before it calls any other
one counts as the tightest. -/
def looseness : Reader σ → Nat
  | expression => 13
  | level p => p.looseness + 3
  | unary => 2
  | primary => 1
  | chain _ _ _ | named | suffixes _ | member _ | arguments | moreArguments | typeArguments
  | moreTypeArguments => 0

/-- A reader on some tokens may call another one on tokens of which some have been used, or a tighter one on
the same tokens. -/
inductive MayCall (r : Reader σ) (ts : Tokens) : Reader σ → Tokens → Prop
  | after {r' : Reader σ} {rest : Tokens} : ts.Advances rest → MayCall r ts r' rest
  | tighter {r' : Reader σ} : r'.looseness < r.looseness → MayCall r ts r' ts

end Reader

/-- A way to make the calls of readers. -/
abbrev Readers (σ : Type) := (r : Reader σ) → (ts : Tokens) → Parsed r.Result (r.bound ts)

/-- Reads an operand of a level. -/
def Readers.operand {σ : Type} (read : Readers σ) (p : Precedence) (ts : Tokens) :
    Parsed (Expr σ) ts.length :=
  match p.tighter? with
  | some q => read (.level q) ts
  | none => read .unary ts

/-- Reads an argument and those after it. -/
def Readers.argument {σ : Type} (read : Readers σ) (ts : Tokens) : Parsed (List (Expr σ)) ts.length :=
  ((read .expression ts).demand .value ts).andThen fun arg rest h =>
    ((read .moreArguments rest).map (arg :: ·)).under h

/-! ## Parts of outcomes -/

namespace Parsed

variable {α β γ : Type} {m n : Nat}

theorem after_nil {p : Parsed α n} : p.after [] = p := by
  cases p <;> rfl

theorem map_under {h : m < n} {p : Parsed α m} {f : α → β} : (p.under h).map f = (p.map f).under h := by
  cases p <;> rfl

theorem map_map {p : Parsed α n} {f : α → β} {g : β → γ} : (p.map f).map g = p.map (fun a => g (f a)) := by
  cases p <;> rfl

theorem under_choose {choice : Logged (Except Cause α)} {place rest : Tokens} {h : m < n}
    {hm : rest.length < m} {hn : rest.length < n} :
    (choose choice place rest hm).under h = choose choice place rest hn := by
  unfold choose
  split <;> rfl

/-- What comes after some tokens may be part of reading the rest or of reading all of them. -/
theorem andThen_under {p : Parsed α m} {next : (a : α) → (rest : Tokens) → rest.length < m → Parsed β m}
    {next' : (a : α) → (rest : Tokens) → rest.length < n → Parsed β n} (h : m < n)
    (hnext : ∀ a rest hm hn, (next a rest hm).under h = next' a rest hn) :
    (p.andThen next).under h = (p.under h).andThen next' := by
  cases p with
  | failed log fault => rfl
  | done log a rest hm =>
    show ((next a rest hm).after log).under h = (next' a rest _).after log
    rw [← hnext a rest hm]
    cases next a rest hm <;> rfl

theorem andThen_andThen {p : Parsed α n}
    {next : (a : α) → (rest : Tokens) → rest.length < n → Parsed β n}
    {last : (b : β) → (rest : Tokens) → rest.length < n → Parsed γ n} :
    (p.andThen next).andThen last = p.andThen fun a rest h => (next a rest h).andThen last := by
  cases p with
  | failed log fault => rfl
  | done log a rest h =>
    show ((next a rest h).after log).andThen last = ((next a rest h).andThen last).after log
    cases next a rest h with
    | failed log' fault => rfl
    | done log' b rest' h' =>
      show (last b rest' h').after (log ++ log') = ((last b rest' h').after log').after log
      cases last b rest' h' <;> simp [after]

end Parsed

namespace Session

variable {σ : Type}

/-- Reads a type argument and those after it. -/
def typeArgumentWith (s : Session σ) (read : Readers σ) (ts : Tokens) : Parsed (List Ty) ts.length :=
  (s.typeArgument ts).andThen fun type rest h =>
    ((read .moreTypeArguments rest).map (type :: ·)).under h

/-- The readers, which make their own calls. -/
def read (s : Session σ) : Readers σ
  | .expression, ts => s.expression ts
  | .level p, ts => s.level p ts
  | .chain p start left, ts => s.chain p start left ts
  | .unary, ts => s.unary ts
  | .primary, ts => s.primary ts
  | .named, ts => s.named ts
  | .suffixes base, ts => s.suffixes base ts
  | .member object, ts => s.member object ts
  | .arguments, ts =>
    (Parsed.expect (.symbol .leftParen) ts).andThen fun _ inside h => (s.arguments inside).under h
  | .moreArguments, ts =>
    match ts.accept? (.symbol .comma) with
    | some ⟨more, h⟩ => (s.argumentList more).under h
    | none => (Parsed.expect (.symbol .rightParen) ts).map fun _ => []
  | .typeArguments, ts => s.typeArguments ts
  | .moreTypeArguments, ts =>
    match ts.accept? (.symbol .comma) with
    | some ⟨more, h⟩ => (s.typeArgumentList more).under h
    | none => (Parsed.expect (.symbol .greater) ts).map fun _ => []

/-- The readers, with all their calls made by `read`. -/
def readWith (s : Session σ) (read : Readers σ) : Readers σ
  | .expression, ts =>
    (read (.level .or) ts).andThen fun condition rest h =>
      match rest.accept? (.symbol .question) with
      | none => .yield condition rest h
      | some ⟨yes, hy⟩ =>
        if condition.isBoolean then
          ((((read .expression yes).demand .numeric yes).andThen fun left rest hl =>
            ((Parsed.expect (.symbol .colon) rest).andThen fun _ no hn =>
              ((((read .expression no).demand .numeric no).noting fun right =>
                "built conditional with branches " ++ left.text ++ " and " ++ right.text).map
                  (.conditional condition left)).under hn).under hl).under hy).under h
        else
          .fail (.wrongRole .boolean condition.text) ts
  | .level p, ts =>
    (read.operand p ts).andThen fun left rest h => (read (.chain p ts left) rest).within h
  | .chain p start left, ts =>
    match ts.operator? BinaryOp.symbol p.operators with
    | none => .nothing left ts
    | some (op, ⟨rest, h⟩) =>
      if left.plays op.role then
        ((((read.operand p rest).demand op.role rest).andThen fun right after ha =>
          if p.chains then (read (.chain p start (op.combine left right)) after).within ha
          else .yield (op.combine left right) after ha).under h).loose
      else
        .fail (.wrongRole op.role left.text) start
  | .unary, ts =>
    match ts.operator? UnaryOp.symbol UnaryOp.all with
    | none => read .primary ts
    | some (op, ⟨rest, h⟩) => (((read .primary rest).demand op.role rest).map op.apply).under h
  | .primary, ts =>
    match ts.accept? (.symbol .leftParen) with
    | some ⟨inside, h⟩ =>
      ((read .expression inside).andThen fun inner rest hi =>
        ((Parsed.expect (.symbol .rightParen) rest).andThen fun _ after ha =>
          match inner with
          | .castTarget type =>
            ((((read .expression after).demand .value after).noting fun operand =>
              "built cast to " ++ type.text ++ " of " ++ operand.text).map (.convert type)).under ha
          | e => (read (.suffixes e) after).within ha).under hi).under h
    | none =>
      (if ts.kind = .identifier then read .named ts else .literal ts).andThen fun e rest h =>
        (read (.suffixes e) rest).within h
  | .named, ts =>
    (Parsed.identifier ts).andThen fun name rest h =>
      match rest.accept? (.symbol .leftParen) with
      | some _ =>
        ((read .arguments rest).andThen fun args after ha => s.callNamed name args ts after ha).under h
      | none => s.plainName name ts rest h
  | .suffixes e, ts =>
    match ts.accept? (.symbol .leftBracket) with
    | some ⟨inside, h⟩ =>
      match e.type with
      | .list element =>
        ((((read .expression inside).demand .numeric inside).andThen fun index rest hr =>
          ((Parsed.expect (.symbol .rightBracket) rest).andThen fun _ after ha =>
            (read (.suffixes (.element e index element)) after).within ha).under hr).under h).loose
      | _ => .fail (.cannotIndex e.text) ts
    | none =>
      match ts.accept? (.symbol .dot) with
      | some ⟨name, h⟩ =>
        if e.isObject ∧ e.type ≠ .void then
          (((read (.member e) name).andThen fun e after ha =>
            (read (.suffixes e) after).within ha).under h).loose
        else
          .fail (.cannotAccessMember e.text) ts
      | none => .nothing e ts
  | .member object, ts =>
    (Parsed.identifier ts).andThen fun name rest h =>
      match rest.accept? (.symbol .leftParen) with
      | some _ =>
        ((read .arguments rest).andThen fun args after ha =>
          (Parsed.choose (Overload.resolve s.catalog s.helpers object.type name (args.map Expr.type))
            ts after ha).map fun m => .method object m args).under h
      | none =>
        if rest.kind = .symbol .less ∧ s.catalog.hasGenericMethod object.type name then
          ((read .typeArguments rest).andThen fun typeArgs bracket hb =>
            ((read .arguments bracket).andThen fun args after ha =>
              (Parsed.choose (Overload.resolveGeneric s.catalog object.type name typeArgs
                (args.map Expr.type)) ts after ha).map fun m =>
                  .method object (m.instantiate typeArgs) args).under hb).under h
        else
          s.plainMember object name ts rest h
  | .arguments, ts =>
    (Parsed.expect (.symbol .leftParen) ts).andThen fun _ inside h =>
      (match inside.accept? (.symbol .rightParen) with
      | some ⟨rest, hr⟩ => Parsed.yield [] rest hr
      | none => read.argument inside).under h
  | .moreArguments, ts =>
    match ts.accept? (.symbol .comma) with
    | some ⟨more, h⟩ => (read.argument more).under h
    | none => (Parsed.expect (.symbol .rightParen) ts).map fun _ => []
  | .typeArguments, ts =>
    (Parsed.expect (.symbol .less) ts).andThen fun _ inside h => (s.typeArgumentWith read inside).under h
  | .moreTypeArguments, ts =>
    match ts.accept? (.symbol .comma) with
    | some ⟨more, h⟩ => (s.typeArgumentWith read more).under h
    | none => (Parsed.expect (.symbol .greater) ts).map fun _ => []

/-! ## What readers leave -/

open Tokens Parsed

variable {s : Session σ} {ts rest : Tokens}

/-- What is left after a reader is the end of what was there before it. -/
theorem isSuffix_of_yields {r : Reader σ} {a : r.Result} (h : (s.read r ts).Yields a rest) :
    rest <:+ ts := by
  have hderives : ∀ {phrase : Phrase σ} {m : phrase.Meaning} {ts rest : Tokens},
      (∃ d, Derives s phrase d ts m rest) → rest <:+ ts := fun ⟨_, hd⟩ => hd.isSuffix
  cases r with
  | expression => exact hderives (derives_expression h)
  | level => exact hderives (derives_level h)
  | chain => exact hderives (derives_chain h)
  | unary => exact hderives (derives_unary h)
  | primary => exact hderives (derives_primary h)
  | named => exact hderives (derives_named h)
  | suffixes => exact hderives (derives_suffixes h)
  | member => exact hderives (derives_member h)
  | arguments =>
    obtain ⟨_, inside, _, hopen, hargs⟩ := yields_andThen.1 h
    exact (hderives (derives_arguments (yields_under.1 hargs))).trans (yields_expect.1 hopen).isSuffix
  | moreArguments =>
    unfold read at h
    dsimp only at h
    split at h
    · exact (hderives (derives_argumentList (yields_under.1 h))).trans
        (accept?_eq_some_iff.1 ‹_›).isSuffix
    · obtain ⟨_, hclose, -⟩ := yields_map.1 h
      exact (yields_expect.1 hclose).isSuffix
  | typeArguments =>
    obtain ⟨inside, hopen, htypes⟩ := yields_typeArguments.1 h
    exact (typeArguments_of_yields htypes).isSuffix.trans hopen.isSuffix
  | moreTypeArguments =>
    unfold read at h
    dsimp only at h
    split at h
    · exact (typeArguments_of_yields (yields_under.1 h)).isSuffix.trans
        (accept?_eq_some_iff.1 ‹_›).isSuffix
    · obtain ⟨_, hclose, -⟩ := yields_map.1 h
      exact (yields_expect.1 hclose).isSuffix

/-- What an expression leaves, a token having been used for it. -/
theorem advances_of_yields {r : Reader σ} {a : r.Result} (h : (s.read r ts).Yields a rest)
    (hbound : r.bound ts = ts.length) : ts.Advances rest :=
  advances_of_isSuffix (isSuffix_of_yields h) (hbound ▸ h.length_lt)

theorem advances_operand {p : Precedence} {e : Expr σ} (h : (s.operand p ts).Yields e rest) :
    ts.Advances rest := by
  obtain ⟨d, hd⟩ := derives_operand h
  exact advances_of_isSuffix hd.isSuffix h.length_lt

/-! ## Which calls matter -/

/-- The calls that a reader may make on some tokens are made as the readers make them. -/
def Follows (s : Session σ) (read : Readers σ) (r : Reader σ) (ts : Tokens) : Prop :=
  ∀ r' ts', r.MayCall ts r' ts' → read r' ts' = s.read r' ts'

namespace Follows

variable {read : Readers σ} {r r' : Reader σ}

theorem after (h : s.Follows read r ts) (hrest : ts.Advances rest) : read r' rest = s.read r' rest :=
  h r' rest (.after hrest)

theorem tighter (h : s.Follows read r ts) (hr : r'.looseness < r.looseness) :
    read r' ts = s.read r' ts :=
  h r' ts (.tighter hr)

end Follows

variable {read : Readers σ} {p : Precedence}

theorem operand_eq_of (hlevel : ∀ q, p.tighter? = some q → read (.level q) ts = s.level q ts)
    (hunary : read .unary ts = s.unary ts) : read.operand p ts = s.operand p ts := by
  rw [operand.eq_def]
  unfold Readers.operand
  split
  · rename_i q hq
    rw [hq]
    exact hlevel q hq
  · rename_i hq
    rw [hq]
    exact hunary

theorem readWith_expression (h : s.Follows read .expression ts) :
    s.readWith read .expression ts = s.expression ts := by
  have hlevel : read (.level .or) ts = s.level .or ts := h.tighter (Nat.lt_succ_self 12)
  rw [expression.eq_def]
  refine andThen_congr hlevel fun condition rest hlt hcondition => ?_
  have hrest : ts.Advances rest := advances_of_yields (r := .level .or) (hlevel ▸ hcondition) rfl
  cases hquestion : rest.accept? (.symbol .question) with
  | none => rfl
  | some yes =>
    obtain ⟨yes, hy⟩ := yes
    have hyes := hrest.trans (accept?_eq_some_iff.1 hquestion).advances
    have hleft : read .expression yes = s.expression yes := h.after hyes
    refine ite_congr rfl (fun _ => congrArg (under hlt) (congrArg (under hy) ?_)) fun _ => rfl
    rw [hleft]
    refine andThen_congr rfl fun left colon hl hyields => ?_
    refine congrArg (under hl) (andThen_congr rfl fun _ no hn hcolon => ?_)
    have hafter : yes.Advances colon :=
      advances_of_yields (r := .expression) (yields_demand.1 hyields).1 rfl
    have hright : read .expression no = s.expression no :=
      h.after ((hyes.trans hafter).trans (yields_expect.1 hcolon).advances)
    rw [hright]

theorem readWith_level (h : s.Follows read (.level p) ts) :
    s.readWith read (.level p) ts = s.level p ts := by
  have hoperand : read.operand p ts = s.operand p ts :=
    operand_eq_of (fun q hq => h.tighter (Nat.add_lt_add_right (Precedence.looseness_tighter? hq) 3))
      (h.tighter (Nat.le_add_left 3 p.looseness))
  rw [level.eq_def]
  refine andThen_congr hoperand fun left rest hlt hleft => ?_
  have hchain : read (.chain p ts left) rest = s.chain p ts left rest :=
    h.after (advances_operand (hoperand ▸ hleft))
  rw [hchain]

theorem readWith_chain {start : Tokens} {left : Expr σ} (h : s.Follows read (.chain p start left) ts) :
    s.readWith read (.chain p start left) ts = s.chain p start left ts := by
  rw [chain.eq_def]
  delta readWith
  dsimp only
  cases hoperator : ts.operator? BinaryOp.symbol p.operators with
  | none => rfl
  | some operation =>
    obtain ⟨op, rest, hlt⟩ := operation
    have hrest : ts.Advances rest :=
      ((operator?_eq_some_iff BinaryOp.symbol_injective).1 hoperator).2.advances
    have hoperand : read.operand p rest = s.operand p rest :=
      operand_eq_of (fun q _ => h.after hrest) (h.after hrest)
    refine ite_congr rfl (fun _ => congrArg loose (congrArg (under hlt) ?_)) fun _ => rfl
    rw [hoperand]
    refine andThen_congr rfl fun right after ha hright => ?_
    have hafter := hrest.trans (advances_operand (yields_demand.1 hright).1)
    have hchain : read (.chain p start (op.combine left right)) after =
        s.chain p start (op.combine left right) after := h.after hafter
    rw [hchain]

theorem readWith_unary (h : s.Follows read .unary ts) : s.readWith read .unary ts = s.unary ts := by
  rw [unary.eq_def]
  delta readWith
  dsimp only
  cases hoperator : ts.operator? UnaryOp.symbol UnaryOp.all with
  | none => exact h.tighter (Nat.lt_succ_self 1)
  | some operation =>
    obtain ⟨op, rest, hlt⟩ := operation
    have hprimary : read .primary rest = s.primary rest :=
      h.after ((operator?_eq_some_iff UnaryOp.symbol_injective).1 hoperator).2.advances
    simp only [hprimary]

theorem readWith_primary (h : s.Follows read .primary ts) :
    s.readWith read .primary ts = s.primary ts := by
  rw [primary.eq_def]
  delta readWith
  dsimp only
  cases hopen : ts.accept? (.symbol .leftParen) with
  | some inside =>
    obtain ⟨inside, hlt⟩ := inside
    have hinside := (accept?_eq_some_iff.1 hopen).advances
    have hinner : read .expression inside = s.expression inside := h.after hinside
    dsimp only
    rw [group.eq_def, hinner]
    refine congrArg (under hlt) (andThen_congr rfl fun inner rest hi hyields => ?_)
    refine congrArg (under hi) (andThen_congr rfl fun _ after ha hclose => ?_)
    have hrest := hinside.trans (advances_of_yields (r := .expression) hyields rfl)
    have hafter := hrest.trans (yields_expect.1 hclose).advances
    have hexpression : read .expression after = s.expression after := h.after hafter
    have hsuffixes : ∀ e, read (.suffixes e) after = s.suffixes e after := fun e => h.after hafter
    cases inner <;> simp only [hexpression, hsuffixes]
  | none =>
    have hnamed : read .named ts = s.named ts := h.tighter (Nat.lt_succ_self 0)
    refine andThen_congr (ite_congr rfl (fun _ => hnamed) fun _ => rfl) fun e rest hlt he => ?_
    have hrest : ts.Advances rest := by
      split at he
      · exact advances_of_yields (r := .named) (hnamed ▸ he) rfl
      · obtain ⟨token, hbegins, -⟩ := yields_literal.1 he
        exact hbegins.advances
    have hsuffixes : read (.suffixes e) rest = s.suffixes e rest := h.after hrest
    rw [hsuffixes]

theorem readWith_suffixes {e : Expr σ} (h : s.Follows read (.suffixes e) ts) :
    s.readWith read (.suffixes e) ts = s.suffixes e ts := by
  rw [suffixes.eq_def]
  delta readWith
  dsimp only
  cases hopen : ts.accept? (.symbol .leftBracket) with
  | some inside =>
    obtain ⟨inside, hlt⟩ := inside
    have hinside := (accept?_eq_some_iff.1 hopen).advances
    have hindex : read .expression inside = s.expression inside := h.after hinside
    dsimp only
    cases e.type with
    | list element =>
      refine congrArg loose (congrArg (under hlt) ?_)
      rw [hindex]
      refine andThen_congr rfl fun index rest hr hyields => ?_
      refine congrArg (under hr) (andThen_congr rfl fun _ after ha hclose => ?_)
      have hrest := hinside.trans (advances_of_yields (r := .expression) (yields_demand.1 hyields).1 rfl)
      have hsuffixes : read (.suffixes (.element e index element)) after =
          s.suffixes (.element e index element) after :=
        h.after (hrest.trans (yields_expect.1 hclose).advances)
      rw [hsuffixes]
    | _ => rfl
  | none =>
    cases hdot : ts.accept? (.symbol .dot) with
    | none => rfl
    | some name =>
      obtain ⟨name, hlt⟩ := name
      have hname := (accept?_eq_some_iff.1 hdot).advances
      have hmember : read (.member e) name = s.member e name := h.after hname
      refine ite_congr rfl (fun _ => congrArg loose (congrArg (under hlt) ?_)) fun _ => rfl
      refine andThen_congr hmember fun access after ha haccess => ?_
      have hafter := hname.trans (advances_of_yields (r := .member e) (hmember ▸ haccess) rfl)
      have hsuffixes : read (.suffixes access) after = s.suffixes access after := h.after hafter
      rw [hsuffixes]

/-! ## Arguments -/

theorem argument_eq (hexpression : read .expression ts = s.expression ts)
    (hmore : ∀ rest, ts.Advances rest → read .moreArguments rest = s.read .moreArguments rest) :
    read.argument ts = s.argumentList ts := by
  rw [argumentList.eq_def]
  unfold Readers.argument
  rw [hexpression]
  refine andThen_congr rfl fun arg rest hlt harg => ?_
  rw [hmore rest (advances_of_yields (r := .expression) (yields_demand.1 harg).1 rfl)]
  delta Session.read
  dsimp only
  cases rest.accept? (.symbol .comma) with
  | some more => exact congrArg (under hlt) map_under
  | none => exact congrArg (under hlt) map_map

theorem typeArgumentWith_eq
    (hmore : ∀ rest, ts.Advances rest → read .moreTypeArguments rest = s.read .moreTypeArguments rest) :
    s.typeArgumentWith read ts = s.typeArgumentList ts := by
  rw [typeArgumentList.eq_def]
  refine andThen_congr rfl fun type rest hlt htype => ?_
  obtain ⟨name, hname, -⟩ := yields_typeArgument.1 htype
  rw [hmore rest hname.advances]
  delta Session.read
  dsimp only
  cases rest.accept? (.symbol .comma) with
  | some more => exact congrArg (under hlt) map_under
  | none => exact congrArg (under hlt) map_map

theorem readWith_arguments (h : s.Follows read .arguments ts) :
    s.readWith read .arguments ts = s.read .arguments ts := by
  refine andThen_congr rfl fun _ inside hlt hopen => congrArg (under hlt) ?_
  have hinside := (yields_expect.1 hopen).advances
  rw [arguments.eq_def]
  cases inside.accept? (.symbol .rightParen) with
  | some rest => rfl
  | none => exact argument_eq (h.after hinside) fun rest hrest => h.after (hinside.trans hrest)

theorem readWith_moreArguments (h : s.Follows read .moreArguments ts) :
    s.readWith read .moreArguments ts = s.read .moreArguments ts := by
  delta readWith Session.read
  dsimp only
  cases hcomma : ts.accept? (.symbol .comma) with
  | some more =>
    obtain ⟨more, hlt⟩ := more
    have hmore := (accept?_eq_some_iff.1 hcomma).advances
    exact congrArg (under hlt)
      (argument_eq (h.after hmore) fun rest hrest => h.after (hmore.trans hrest))
  | none => rfl

theorem readWith_typeArguments (h : s.Follows read .typeArguments ts) :
    s.readWith read .typeArguments ts = s.typeArguments ts := by
  refine andThen_congr rfl fun _ inside hlt hopen => congrArg (under hlt) ?_
  exact typeArgumentWith_eq fun rest hrest => h.after ((yields_expect.1 hopen).advances.trans hrest)

theorem readWith_moreTypeArguments (h : s.Follows read .moreTypeArguments ts) :
    s.readWith read .moreTypeArguments ts = s.read .moreTypeArguments ts := by
  delta readWith Session.read
  dsimp only
  cases hcomma : ts.accept? (.symbol .comma) with
  | some more =>
    obtain ⟨more, hlt⟩ := more
    have hmore := (accept?_eq_some_iff.1 hcomma).advances
    exact congrArg (under hlt) (typeArgumentWith_eq fun rest hrest => h.after (hmore.trans hrest))
  | none => rfl

/-! ## Calls -/

/-- Arguments are what follows their opening parenthesis. -/
theorem read_arguments {inside : Tokens} (hopen : ts.Begins (.symbol .leftParen) inside) :
    s.read .arguments ts = (s.arguments inside).under hopen.length_lt := by
  obtain ⟨text, rfl⟩ := hopen
  exact after_nil

theorem under_callNamed {name : String} {args : List (Expr σ)} {place : Tokens} {m n : Nat} (h : m < n)
    (hm : rest.length < m) (hn : rest.length < n) :
    (s.callNamed name args place rest hm).under h = s.callNamed name args place rest hn := by
  unfold callNamed
  cases s.functions.find? name with
  | none => rfl
  | some callee =>
    dsimp only
    split <;> rfl

theorem readWith_named (h : s.Follows read .named ts) : s.readWith read .named ts = s.named ts := by
  rw [named.eq_def]
  refine andThen_congr rfl fun name rest hlt hname => ?_
  have hrest := (yields_identifier.1 hname).advances
  cases hopen : rest.accept? (.symbol .leftParen) with
  | none => rfl
  | some inside =>
    obtain ⟨inside, hi⟩ := inside
    have hargs : read .arguments rest = (s.arguments inside).under hi :=
      (h.after hrest).trans (read_arguments (accept?_eq_some_iff.1 hopen))
    dsimp only
    rw [hargs]
    refine congrArg (under hlt) (andThen_under hi fun args after ha hb => ?_).symm
    exact under_callNamed hi ha hb

theorem readWith_member {object : Expr σ} (h : s.Follows read (.member object) ts) :
    s.readWith read (.member object) ts = s.member object ts := by
  rw [member.eq_def]
  refine andThen_congr rfl fun name rest hlt hname => ?_
  have hrest := (yields_identifier.1 hname).advances
  cases hopen : rest.accept? (.symbol .leftParen) with
  | some inside =>
    obtain ⟨inside, hi⟩ := inside
    have hargs : read .arguments rest = (s.arguments inside).under hi :=
      (h.after hrest).trans (read_arguments (accept?_eq_some_iff.1 hopen))
    dsimp only
    rw [hargs]
    refine congrArg (under hlt) (andThen_under hi fun args after ha hb => ?_).symm
    rw [← map_under, under_choose]
  | none =>
    have htypes : read .typeArguments rest = s.typeArguments rest := h.after hrest
    refine ite_congr rfl (fun _ => congrArg (under hlt) ?_) fun _ => rfl
    refine andThen_congr htypes fun typeArgs bracket hb hyields => congrArg (under hb) ?_
    have hbracket := hrest.trans (advances_of_yields (r := .typeArguments) (htypes ▸ hyields) rfl)
    have hargs : read .arguments bracket = s.read .arguments bracket := h.after hbracket
    rw [hargs]
    refine andThen_andThen.trans (andThen_congr rfl fun _ inside hi _ => ?_)
    refine (andThen_under hi fun args after ha hb => ?_).symm
    rw [← map_under, under_choose]

/-- The outcome of a function of the grammar is decided by the calls that it may make. -/
theorem readWith_eq {r : Reader σ} (h : s.Follows read r ts) : s.readWith read r ts = s.read r ts := by
  cases r with
  | expression => exact readWith_expression h
  | level => exact readWith_level h
  | chain => exact readWith_chain h
  | unary => exact readWith_unary h
  | primary => exact readWith_primary h
  | named => exact readWith_named h
  | suffixes => exact readWith_suffixes h
  | member => exact readWith_member h
  | arguments => exact readWith_arguments h
  | moreArguments => exact readWith_moreArguments h
  | typeArguments => exact readWith_typeArguments h
  | moreTypeArguments => exact readWith_moreTypeArguments h

end Session

end HostExpr
