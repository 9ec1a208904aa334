-- SUMMARY: The attributed grammar of expressions as a relation, with its derivation trees.
import HostExpr.Compile.Precedence
import HostExpr.Compile.Resolution
import HostExpr.Proofs.Compile.Yields

/-!
# Derivations

The grammar of expressions as a relation between tokens and trees. `Derives s phrase d ts e rest` says
that the front of `ts`, up to `rest`, has the derivation `d` from a phrase of the grammar, and that the
tree of that derivation is `e`. The relation is no algorithm: a row of operations and a row of suffixes
may stop at any place, and nothing is said about which tokens are tried first.

The rules for operators are the same at every level, and read the levels off tables. What the tables say is
stated below them, row by row: the level of the operands (`Precedence.tighter?_eq`), where a row of operations
is allowed (`Precedence.chains_iff`), and the sign, the operands and the node of every operation
(`Precedence.operations`, `UnaryOp.operations`).

What comes after a phrase matters in two places. A type name before a closing parenthesis waits for the
operand of a cast. A `<` after the name of a member opens type arguments if the containing type has a
generic method of that name, so the name alone is not a phrase there.
-/

namespace HostExpr

/-! ## Phrases and rules -/

/-- The phrases of the grammar. One that goes on from an expression to its left carries it. -/
inductive Phrase (σ : Type) where
  | expression
  | level (p : Precedence)
  /-- The operations that follow an operand of a level. -/
  | chain (p : Precedence) (left : Expr σ)
  | operand (p : Precedence)
  | unary
  | primary
  | named
  | suffixes (base : Expr σ)
  | member (object : Expr σ)
  /-- Arguments after the opening parenthesis, with the closing one. -/
  | arguments
  | argumentList

/-- What a phrase stands for: expressions for arguments, and else an expression. -/
abbrev Phrase.Meaning {σ : Type} : Phrase σ → Type
  | arguments | argumentList => List (Expr σ)
  | _ => Expr σ

/-- The rules of the grammar. -/
inductive Rule where
  | condition
  | conditional
  | level
  | noOperation
  | operation (op : BinaryOp)
  | tighter
  | tightest
  | noSign
  | sign (op : UnaryOp)
  | cast
  | group
  | named
  | literal
  | call
  | var
  | castTarget
  | enumMember
  | typeName
  | noSuffix
  | index
  | access
  | methodCall
  | genericCall (typeArgs : List Ty)
  | property
  | noArgument
  | someArguments
  | lastArgument
  | argument
  deriving DecidableEq

/-- A derivation: a rule, with derivations of its parts from left to right. -/
inductive Derivation where
  | node (rule : Rule) (parts : List Derivation)

/-! ## The grammar -/

/-- Type arguments after the opening bracket, with the closing one. A name stands for the type of a
variable or else for a type. -/
inductive TypeArguments {σ : Type} (s : Session σ) : Tokens → List Ty → Tokens → Prop
  | last {ts middle rest : Tokens} {name : String} {type : Ty} :
      ts.Begins (.identifier name) middle →
      (s.vars.find? name <|> s.types.find? name) = some type →
      middle.Begins (.symbol .greater) rest → TypeArguments s ts [type] rest
  | more {ts middle more rest : Tokens} {name : String} {type : Ty} {types : List Ty} :
      ts.Begins (.identifier name) middle →
      (s.vars.find? name <|> s.types.find? name) = some type →
      middle.Begins (.symbol .comma) more → TypeArguments s more types rest →
      TypeArguments s ts (type :: types) rest

/-- The front of the tokens has the derivation from the phrase, with the meaning as its tree. -/
inductive Derives {σ : Type} (s : Session σ) :
    (phrase : Phrase σ) → Derivation → Tokens → phrase.Meaning → Tokens → Prop
  -- expression := or ("?" expression ":" expression)?
  | condition {d : Derivation} {ts rest : Tokens} {e : Expr σ} :
      Derives s (.level .or) d ts e rest → Derives s .expression (.node .condition [d]) ts e rest
  | conditional {d₁ d₂ d₃ : Derivation} {ts middle yes colon no rest : Tokens}
      {condition left right : Expr σ} :
      Derives s (.level .or) d₁ ts condition middle → condition.isBoolean →
      middle.Begins (.symbol .question) yes →
      Derives s .expression d₂ yes left colon → left.isNumeric →
      colon.Begins (.symbol .colon) no →
      Derives s .expression d₃ no right rest → right.isNumeric →
      Derives s .expression (.node .conditional [d₁, d₂, d₃]) ts (.conditional condition left right)
        rest
  -- level := operand (operator operand)*, at most one operator at the levels of comparisons
  | level {p : Precedence} {d₁ d₂ : Derivation} {ts middle rest : Tokens} {left e : Expr σ} :
      Derives s (.operand p) d₁ ts left middle → Derives s (.chain p left) d₂ middle e rest →
      Derives s (.level p) (.node .level [d₁, d₂]) ts e rest
  | noOperation {p : Precedence} {ts : Tokens} {left : Expr σ} :
      Derives s (.chain p left) (.node .noOperation []) ts left ts
  | operations {p : Precedence} {op : BinaryOp} {d₁ d₂ : Derivation} {ts next after rest : Tokens}
      {left right e : Expr σ} :
      p.chains → op ∈ p.operators → left.plays op.role → ts.Begins (.symbol op.symbol) next →
      Derives s (.operand p) d₁ next right after → right.plays op.role →
      Derives s (.chain p (op.combine left right)) d₂ after e rest →
      Derives s (.chain p left) (.node (.operation op) [d₁, d₂]) ts e rest
  | operation {p : Precedence} {op : BinaryOp} {d : Derivation} {ts next rest : Tokens}
      {left right : Expr σ} :
      p.chains = false → op ∈ p.operators → left.plays op.role →
      ts.Begins (.symbol op.symbol) next →
      Derives s (.operand p) d next right rest → right.plays op.role →
      Derives s (.chain p left) (.node (.operation op) [d]) ts (op.combine left right) rest
  | tighter {p q : Precedence} {d : Derivation} {ts rest : Tokens} {e : Expr σ} :
      p.tighter? = some q → Derives s (.level q) d ts e rest →
      Derives s (.operand p) (.node .tighter [d]) ts e rest
  | tightest {p : Precedence} {d : Derivation} {ts rest : Tokens} {e : Expr σ} :
      p.tighter? = none → Derives s .unary d ts e rest →
      Derives s (.operand p) (.node .tightest [d]) ts e rest
  -- unary := ("-" | "~" | "!")? primary
  | noSign {d : Derivation} {ts rest : Tokens} {e : Expr σ} :
      Derives s .primary d ts e rest → Derives s .unary (.node .noSign [d]) ts e rest
  | sign {op : UnaryOp} {d : Derivation} {ts next rest : Tokens} {operand : Expr σ} :
      op ∈ UnaryOp.all → ts.Begins (.symbol op.symbol) next →
      Derives s .primary d next operand rest → operand.plays op.role →
      Derives s .unary (.node (.sign op) [d]) ts (op.apply operand) rest
  -- primary := "(" type ")" expression | "(" expression ")" suffix* | named suffix* | literal suffix*
  | cast {d₁ d₂ : Derivation} {ts inside close after rest : Tokens} {type : Ty} {operand : Expr σ} :
      ts.Begins (.symbol .leftParen) inside →
      Derives s .expression d₁ inside (.castTarget type) close →
      close.Begins (.symbol .rightParen) after →
      Derives s .expression d₂ after operand rest → operand.isObject →
      Derives s .primary (.node .cast [d₁, d₂]) ts (.convert type operand) rest
  | group {d₁ d₂ : Derivation} {ts inside close after rest : Tokens} {inner e : Expr σ} :
      ts.Begins (.symbol .leftParen) inside →
      Derives s .expression d₁ inside inner close → inner.isObject →
      close.Begins (.symbol .rightParen) after →
      Derives s (.suffixes inner) d₂ after e rest →
      Derives s .primary (.node .group [d₁, d₂]) ts e rest
  | named {d₁ d₂ : Derivation} {ts middle rest : Tokens} {base e : Expr σ} :
      Derives s .named d₁ ts base middle → Derives s (.suffixes base) d₂ middle e rest →
      Derives s .primary (.node .named [d₁, d₂]) ts e rest
  | literal {token : Token} {d : Derivation} {ts middle rest : Tokens} {base e : Expr σ} :
      ts.Begins token middle → Expr.ofLiteral? token = some base →
      Derives s (.suffixes base) d middle e rest →
      Derives s .primary (.node .literal [d]) ts e rest
  -- named := name "(" arguments | name | enumeration "." name
  | call {name : String} {callee : HostFunction σ} {d : Derivation} {ts middle inside rest : Tokens}
      {args : List (Expr σ)} :
      ts.Begins (.identifier name) middle → middle.Begins (.symbol .leftParen) inside →
      Derives s .arguments d inside args rest →
      s.functions.find? name = some callee → args.length = callee.arity →
      Derives s .named (.node .call [d]) ts (.call callee args) rest
  | var {name : String} {type : Ty} {ts rest : Tokens} :
      ts.Begins (.identifier name) rest → s.vars.find? name = some type →
      Derives s .named (.node .var []) ts (.var name type) rest
  | castTarget {name : String} {type : Ty} {ts rest : Tokens} :
      ts.Begins (.identifier name) rest → s.vars.find? name = none →
      s.types.find? name = some type → rest.kind = .symbol .rightParen →
      Derives s .named (.node .castTarget []) ts (.castTarget type) rest
  | enumMember {name member : String} {enum : EnumType} {value : Int64}
      {ts middle place rest : Tokens} :
      ts.Begins (.identifier name) middle → s.vars.find? name = none →
      s.types.find? name = some (.enum enum) → middle.Begins (.symbol .dot) place →
      place.Begins (.identifier member) rest → enum.valueOf? member = some value →
      Derives s .named (.node .enumMember []) ts (.enum ⟨enum, value⟩) rest
  | typeName {name : String} {type : Ty} {ts rest : Tokens} :
      ts.Begins (.identifier name) rest → s.vars.find? name = none →
      s.types.find? name = some type → rest.kind ≠ .symbol .rightParen →
      (∀ enum, type ≠ .enum enum) →
      Derives s .named (.node .typeName []) ts (.typeName name type) rest
  -- suffix := "[" expression "]" | "." member
  | noSuffix {ts : Tokens} {base : Expr σ} :
      Derives s (.suffixes base) (.node .noSuffix []) ts base ts
  | index {type : Ty} {d₁ d₂ : Derivation} {ts inside close after rest : Tokens}
      {base index e : Expr σ} :
      ts.Begins (.symbol .leftBracket) inside → base.type = .list type →
      Derives s .expression d₁ inside index close → index.isNumeric →
      close.Begins (.symbol .rightBracket) after →
      Derives s (.suffixes (.element base index type)) d₂ after e rest →
      Derives s (.suffixes base) (.node .index [d₁, d₂]) ts e rest
  | access {d₁ d₂ : Derivation} {ts name after rest : Tokens} {base access e : Expr σ} :
      ts.Begins (.symbol .dot) name → base.isObject → base.type ≠ .void →
      Derives s (.member base) d₁ name access after →
      Derives s (.suffixes access) d₂ after e rest →
      Derives s (.suffixes base) (.node .access [d₁, d₂]) ts e rest
  -- member := name "(" arguments | name "<" types ">" "(" arguments | name
  | methodCall {name : String} {callee : Method σ} {d : Derivation} {ts middle inside rest : Tokens}
      {object : Expr σ} {args : List (Expr σ)} :
      ts.Begins (.identifier name) middle → middle.Begins (.symbol .leftParen) inside →
      Derives s .arguments d inside args rest →
      (Overload.resolve s.catalog s.helpers object.type name (args.map Expr.type)).value =
        .ok callee →
      Derives s (.member object) (.node .methodCall [d]) ts (.method object callee args) rest
  | genericCall {name : String} {typeArgs : List Ty} {callee : Method σ} {d : Derivation}
      {ts middle types bracket inside rest : Tokens} {object : Expr σ} {args : List (Expr σ)} :
      ts.Begins (.identifier name) middle → s.catalog.hasGenericMethod object.type name →
      middle.Begins (.symbol .less) types → TypeArguments s types typeArgs bracket →
      bracket.Begins (.symbol .leftParen) inside → Derives s .arguments d inside args rest →
      (Overload.resolveGeneric s.catalog object.type name typeArgs (args.map Expr.type)).value =
        .ok callee →
      Derives s (.member object) (.node (.genericCall typeArgs) [d]) ts
        (.method object (callee.instantiate typeArgs) args) rest
  | property {name : String} {member : Member σ} {others : List (Member σ)} {ts rest : Tokens}
      {object : Expr σ} :
      ts.Begins (.identifier name) rest →
      ¬ (rest.kind = .symbol .less ∧ s.catalog.hasGenericMethod object.type name) →
      s.catalog.members object.type name = member :: others →
      Derives s (.member object) (.node .property []) ts (.property object member) rest
  -- arguments := ")" | expression ("," expression)* ")"
  | noArgument {ts rest : Tokens} :
      ts.Begins (.symbol .rightParen) rest →
      Derives s .arguments (.node .noArgument []) ts [] rest
  | someArguments {d : Derivation} {ts rest : Tokens} {args : List (Expr σ)} :
      Derives s .argumentList d ts args rest →
      Derives s .arguments (.node .someArguments [d]) ts args rest
  | lastArgument {d : Derivation} {ts close rest : Tokens} {arg : Expr σ} :
      Derives s .expression d ts arg close → arg.isObject →
      close.Begins (.symbol .rightParen) rest →
      Derives s .argumentList (.node .lastArgument [d]) ts [arg] rest
  | argument {d₁ d₂ : Derivation} {ts comma more rest : Tokens} {arg : Expr σ}
      {args : List (Expr σ)} :
      Derives s .expression d₁ ts arg comma → arg.isObject →
      comma.Begins (.symbol .comma) more → Derives s .argumentList d₂ more args rest →
      Derives s .argumentList (.node .argument [d₁, d₂]) ts (arg :: args) rest

/-! ## The tables of operators -/

namespace Precedence

/-- The levels, from the loosest to the tightest. -/
def levels : List Precedence :=
  [or, and, bitOr, bitXor, bitAnd, equality, relation, shift, sum, product]

theorem mem_levels (p : Precedence) : p ∈ levels := by
  cases p <;> decide

/-- The operands of a level are of the next level, and those of the last one are unary. -/
theorem tighter?_eq (p : Precedence) : p.tighter? = levels[levels.idxOf p + 1]? := by
  cases p <;> rfl

/-- A row of operations is allowed unless they are comparisons. -/
theorem chains_iff (p : Precedence) :
    p.chains ↔ ∀ op ∈ p.operators, ∀ comparison, op ≠ .comparison comparison := by
  cases p <;> simp [chains, operators]

/-- The operations of the levels: how they are written, what both operands have to be, and the node. The
type of an arithmetic operation is promoted from those of its operands. -/
theorem operations {σ : Type} (left right : Expr σ) :
    (levels.flatMap fun p => p.operators.map fun op =>
      (p, op.symbol.text, op.role, op.combine left right)) =
    let promoted := left.type.promote right.type
    [(or, "||", .boolean, .logical .or left right),
      (and, "&&", .boolean, .logical .and left right),
      (bitOr, "|", .numeric, .arithmetic .bitOr left right promoted),
      (bitXor, "^", .numeric, .arithmetic .bitXor left right promoted),
      (bitAnd, "&", .numeric, .arithmetic .bitAnd left right promoted),
      (equality, "==", .numeric, .comparison .equal left right),
      (equality, "!=", .numeric, .comparison .notEqual left right),
      (relation, "<", .numeric, .comparison .less left right),
      (relation, "<=", .numeric, .comparison .lessEqual left right),
      (relation, ">=", .numeric, .comparison .greaterEqual left right),
      (relation, ">", .numeric, .comparison .greater left right),
      (shift, "<<", .numeric, .arithmetic .shiftLeft left right promoted),
      (shift, ">>", .numeric, .arithmetic .shiftRight left right promoted),
      (sum, "+", .numeric, .arithmetic .add left right promoted),
      (sum, "-", .numeric, .arithmetic .sub left right promoted),
      (product, "*", .numeric, .arithmetic .mul left right promoted),
      (product, "/", .numeric, .arithmetic .div left right promoted),
      (product, "%", .numeric, .arithmetic .mod left right promoted)] := rfl

end Precedence

/-- The operations on one operand: how they are written, what the operand has to be, and the node, which has
the type of the operand if it is arithmetic. -/
theorem UnaryOp.operations {σ : Type} (operand : Expr σ) :
    (all.map fun op => (op.symbol.text, op.role, op.apply operand)) =
      [("-", .numeric, .arithmeticUnary .sub operand operand.type),
        ("~", .numeric, .arithmeticUnary .complement operand operand.type),
        ("!", .boolean, .logicalUnary .not operand)] := rfl

end HostExpr
