-- SUMMARY: Reading an expression from tokens, and resolving its names on the way.
import HostExpr.Compile.Precedence
import HostExpr.Compile.Resolution

/-!
# The grammar

```
expression := or ("?" expression ":" expression)?
level      := operand (operator operand)*          at most one operator at the levels of comparisons
unary      := ("-" | "~" | "!")? primary
primary    := "(" type ")" expression | "(" expression ")" suffix* | named suffix* | literal suffix*
named      := name "(" arguments | name | enumeration "." name
suffix     := "[" expression "]" | "." member
member     := name "(" arguments | name "<" types ">" "(" arguments | name
arguments  := ")" | expression ("," expression)* ")"
```

One function for each line. A cast takes the whole expression after it and no suffix of its own. After
a point, `<` opens type arguments only if the containing type has a generic method of that name;
elsewhere it is a comparison.

Names are resolved and roles checked where they are read, in the order of the text, and the first
fault ends the reading. Each function reads at least one token (`chain` and `suffixes` may read none),
and the calls that read none before go to a tighter part of the grammar: that is why reading ends.
-/

namespace HostExpr.Session

variable {σ : Type}

mutual

/-- Reads an expression. -/
def expression (s : Session σ) (ts : Tokens) : Parsed (Expr σ) ts.length :=
  (s.level .or ts).andThen fun condition rest h =>
    match rest.accept? (.symbol .question) with
    | none => .yield condition rest h
    | some ⟨yes, hy⟩ =>
      if condition.isBoolean then
        ((((s.expression yes).demand .numeric yes).andThen fun left rest hl =>
          ((Parsed.expect (.symbol .colon) rest).andThen fun _ no hn =>
            ((((s.expression no).demand .numeric no).noting fun right =>
              "built conditional with branches " ++ left.text ++ " and " ++ right.text).map
                (.conditional condition left)).under hn).under hl).under hy).under h
      else
        .fail (.wrongRole .boolean condition.text) ts
termination_by 32 * ts.length + 23
decreasing_by
  all_goals have := Precedence.looseness_le .or
  all_goals omega

/-- Reads the operations of a level. -/
def level (s : Session σ) (p : Precedence) (ts : Tokens) : Parsed (Expr σ) ts.length :=
  (s.operand p ts).andThen fun left rest h => (s.chain p ts left rest).within h
termination_by 32 * ts.length + 2 * p.looseness + 4

/-- Reads an operand of a level. -/
def operand (s : Session σ) (p : Precedence) (ts : Tokens) : Parsed (Expr σ) ts.length :=
  match _ : p.tighter? with
  | some q => s.level q ts
  | none => s.unary ts
termination_by 32 * ts.length + 2 * p.looseness + 3
decreasing_by
  · have := Precedence.looseness_tighter? ‹_›
    omega
  · omega

/-- Reads the operations that follow an operand of a level, which began at `start`. -/
def chain (s : Session σ) (p : Precedence) (start : Tokens) (left : Expr σ) (ts : Tokens) :
    Parsed (Expr σ) (ts.length + 1) :=
  match ts.operator? BinaryOp.symbol p.operators with
  | none => .nothing left ts
  | some (op, ⟨rest, h⟩) =>
    if left.plays op.role then
      ((((s.operand p rest).demand op.role rest).andThen fun right after ha =>
        if p.chains then (s.chain p start (op.combine left right) after).within ha
        else .yield (op.combine left right) after ha).under h).loose
    else
      .fail (.wrongRole op.role left.text) start
termination_by 32 * ts.length
decreasing_by
  all_goals have := Precedence.looseness_le p
  all_goals omega

/-- Reads an operand with at most one operator before it. -/
def unary (s : Session σ) (ts : Tokens) : Parsed (Expr σ) ts.length :=
  match ts.operator? UnaryOp.symbol UnaryOp.all with
  | none => s.primary ts
  | some (op, ⟨rest, h⟩) => (((s.primary rest).demand op.role rest).map op.apply).under h
termination_by 32 * ts.length + 2

/-- Reads an expression in parentheses, a cast, or a name or literal, with suffixes. -/
def primary (s : Session σ) (ts : Tokens) : Parsed (Expr σ) ts.length :=
  match ts.accept? (.symbol .leftParen) with
  | some ⟨inside, h⟩ => (s.group inside).under h
  | none =>
    (if ts.kind = .identifier then s.named ts else .literal ts).andThen fun e rest h =>
      (s.suffixes e rest).within h
termination_by 32 * ts.length + 1

/-- Reads what follows an opening parenthesis: an expression with suffixes, or a cast. -/
def group (s : Session σ) (ts : Tokens) : Parsed (Expr σ) ts.length :=
  (s.expression ts).andThen fun inner rest h =>
    ((Parsed.expect (.symbol .rightParen) rest).andThen fun _ after ha =>
      match inner with
      | .castTarget type =>
        ((((s.expression after).demand .value after).noting fun operand =>
          "built cast to " ++ type.text ++ " of " ++ operand.text).map (.convert type)).under ha
      | e => (s.suffixes e after).within ha).under h
termination_by 32 * ts.length + 24

/-- Reads a name, with its arguments if it is called. -/
def named (s : Session σ) (ts : Tokens) : Parsed (Expr σ) ts.length :=
  (Parsed.identifier ts).andThen fun name rest h =>
    match rest.accept? (.symbol .leftParen) with
    | some ⟨inside, hi⟩ =>
      (((s.arguments inside).andThen fun args after ha =>
        s.callNamed name args ts after ha).under hi).under h
    | none => s.plainName name ts rest h
termination_by 32 * ts.length

/-- Reads the suffixes of an expression. -/
def suffixes (s : Session σ) (e : Expr σ) (ts : Tokens) : Parsed (Expr σ) (ts.length + 1) :=
  match ts.accept? (.symbol .leftBracket) with
  | some ⟨inside, h⟩ =>
    match e.type with
    | .list element =>
      ((((s.expression inside).demand .numeric inside).andThen fun index rest hr =>
        ((Parsed.expect (.symbol .rightBracket) rest).andThen fun _ after ha =>
          (s.suffixes (.element e index element) after).within ha).under hr).under h).loose
    | _ => .fail (.cannotIndex e.text) ts
  | none =>
    match ts.accept? (.symbol .dot) with
    | some ⟨name, h⟩ =>
      if e.isObject ∧ e.type ≠ .void then
        (((s.member e name).andThen fun e after ha =>
          (s.suffixes e after).within ha).under h).loose
      else
        .fail (.cannotAccessMember e.text) ts
    | none => .nothing e ts
termination_by 32 * ts.length

/-- Reads the member of an expression after the point. -/
def member (s : Session σ) (object : Expr σ) (ts : Tokens) : Parsed (Expr σ) ts.length :=
  (Parsed.identifier ts).andThen fun name rest h =>
    match rest.accept? (.symbol .leftParen) with
    | some ⟨inside, hi⟩ =>
      (((s.arguments inside).andThen fun args after ha =>
        (Parsed.choose (Overload.resolve s.catalog s.helpers object.type name (args.map Expr.type))
          ts after ha).map fun m => .method object m args).under hi).under h
    | none =>
      if rest.kind = .symbol .less ∧ s.catalog.hasGenericMethod object.type name then
        ((s.typeArguments rest).andThen fun typeArgs bracket hb =>
          ((Parsed.expect (.symbol .leftParen) bracket).andThen fun _ inside hi =>
            ((s.arguments inside).andThen fun args after ha =>
              (Parsed.choose (Overload.resolveGeneric s.catalog object.type name typeArgs
                (args.map Expr.type)) ts after ha).map fun m =>
                  .method object (m.instantiate typeArgs) args).under hi).under hb).under h
      else
        s.plainMember object name ts rest h
termination_by 32 * ts.length

/-- Reads what follows the opening parenthesis of arguments. -/
def arguments (s : Session σ) (ts : Tokens) : Parsed (List (Expr σ)) ts.length :=
  match ts.accept? (.symbol .rightParen) with
  | some ⟨rest, h⟩ => .yield [] rest h
  | none => s.argumentList ts
termination_by 32 * ts.length + 25

/-- Reads one argument or more, with commas between them, and the closing parenthesis. -/
def argumentList (s : Session σ) (ts : Tokens) : Parsed (List (Expr σ)) ts.length :=
  ((s.expression ts).demand .value ts).andThen fun arg rest h =>
    match rest.accept? (.symbol .comma) with
    | some ⟨more, hm⟩ => (((s.argumentList more).map (arg :: ·)).under hm).under h
    | none => ((Parsed.expect (.symbol .rightParen) rest).map fun _ => [arg]).under h
termination_by 32 * ts.length + 24

end

/-- Reads an expression that is all there is. -/
def wholeExpression (s : Session σ) (ts : Tokens) : Parsed (Expr σ) ts.length :=
  (s.expression ts).andThen fun e rest h =>
    match rest with
    | [] => .yield e [] h
    | l :: rest => .fail (.trailingTokens l.found) (l :: rest)

end HostExpr.Session
