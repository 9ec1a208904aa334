-- SUMMARY: What the names and literals at the leaves of an expression mean.
import HostExpr.Session
import HostExpr.Overload
import HostExpr.Expr.Rendering
import HostExpr.Compile.Parsed

/-!
# Names and literals

The parts of the grammar in which no expression is nested: literals, names of variables and types,
members of enumerations, type arguments, and members that are read. A name that is not called means a
variable or else a type. A type alone in parentheses is a cast; an enumeration is followed by the name
of a member; any other type qualifies what follows its point.
-/

namespace HostExpr

namespace Parsed

variable {α σ : Type} {n : Nat}

/-- The outcome of a choice by its types. -/
def choose (choice : Logged (Except Cause α)) (place rest : Tokens) (h : rest.length < n) :
    Parsed α n :=
  match choice.value with
  | .ok a => done choice.log a rest h
  | .error cause => failed choice.log ⟨cause, place⟩

/-- An expression, which has to play a role; if not, the fault is at a place. -/
def demand (role : Role) (place : Tokens) (p : Parsed (Expr σ) n) : Parsed (Expr σ) n :=
  p.andThen fun e rest h =>
    if e.plays role then yield e rest h else fail (.wrongRole role e.text) place

end Parsed

/-- The literal that a token is. -/
def Expr.ofLiteral? {σ : Type} : Token → Option (Expr σ)
  | .truth b => some (.bool b)
  | .number value kind => some (.number value kind)
  | .string text => some (.string text)
  | .identifier _ | .symbol _ => none

/-- Reads a literal. -/
def Parsed.literal {σ : Type} (ts : Tokens) : Parsed (Expr σ) ts.length :=
  .token "boolean, number or string literal" Expr.ofLiteral? ts

namespace Session

variable {σ : Type}

/-! ## Names -/

/-- Reads a point and the name of a member of an enumeration. -/
def enumMember (enum : String) (type : EnumType) (ts : Tokens) : Parsed (Expr σ) ts.length :=
  (Parsed.expect (.symbol .dot) ts).andThen fun _ place h =>
    ((Parsed.identifier place).andThen fun member rest hr =>
      .require ((type.valueOf? member).map fun value => .enum ⟨type, value⟩)
        (.unknownEnumMember enum member) place rest hr).under h

/-- What a name that is not called means. It stands at `place`, and `rest` comes after it. -/
def plainName (s : Session σ) (name : String) (place rest : Tokens)
    (h : rest.length < place.length) : Parsed (Expr σ) place.length :=
  match s.vars.find? name with
  | some type =>
    (Parsed.yield (.var name type) rest h).noting fun _ =>
      "'" ++ name ++ "' resolved to a variable of type " ++ type.text
  | none =>
    match s.types.find? name with
    | none => .fail (.unknownVariable name) place
    | some type =>
      if rest.kind = .symbol .rightParen then
        (Parsed.yield (.castTarget type) rest h).noting fun _ =>
          "'" ++ name ++ "' resolved to a cast target"
      else
        match type with
        | .enum enum => (enumMember name enum rest).under h
        | type =>
          (Parsed.yield (.typeName name type) rest h).noting fun _ =>
            "'" ++ name ++ "' resolved to a static type qualifier"

/-- The call of a function. Its name stands at `place`, and `rest` comes after the arguments. -/
def callNamed (s : Session σ) (name : String) (args : List (Expr σ)) (place rest : Tokens) {n : Nat}
    (h : rest.length < n) : Parsed (Expr σ) n :=
  match s.functions.find? name with
  | none => .fail (.unknownFunction name) place
  | some callee =>
    if args.length = callee.arity then
      (Parsed.yield (.call callee args) rest h).noting fun _ =>
        "'" ++ name ++ "' resolved to a function call"
    else
      .fail (.argumentCount name callee.arity args.length) place

/-! ## Type arguments -/

/-- Reads a type argument: a name of a variable, which stands for its type, or of a type. -/
def typeArgument (s : Session σ) (ts : Tokens) : Parsed Ty ts.length :=
  (Parsed.identifier ts).andThen fun name rest h =>
    .require (s.vars.find? name <|> s.types.find? name) (.unknownVariable name) ts rest h

/-- Reads type arguments with commas between them, and the closing bracket. -/
def typeArgumentList (s : Session σ) (ts : Tokens) : Parsed (List Ty) ts.length :=
  (s.typeArgument ts).andThen fun type rest h =>
    match rest.accept? (.symbol .comma) with
    | some ⟨more, hm⟩ => (((s.typeArgumentList more).map (type :: ·)).under hm).under h
    | none => ((Parsed.expect (.symbol .greater) rest).map fun _ => [type]).under h
termination_by ts.length

/-- Reads type arguments between angle brackets. -/
def typeArguments (s : Session σ) (ts : Tokens) : Parsed (List Ty) ts.length :=
  (Parsed.expect (.symbol .less) ts).andThen fun _ rest h =>
    (s.typeArgumentList rest).under h

/-! ## Members -/

/-- A member that is read, not called. Its name stands at `place`, and `rest` comes after it. -/
def plainMember (s : Session σ) (object : Expr σ) (name : String) (place rest : Tokens)
    (h : rest.length < place.length) : Parsed (Expr σ) place.length :=
  match s.catalog.members object.type name with
  | member :: _ =>
    (Parsed.yield (.property object member) rest h).noting fun _ =>
      "'" ++ object.type.text ++ "." ++ name ++ "' resolved to " ++ member.kind.text ++ " member"
  | [] =>
    if s.catalog.methods object.type name = [] then
      .fail (.unknownMember object.type.text name) place
    else
      .fail (.other ("'" ++ name ++ "' is a method of " ++ object.type.text ++
        " and needs an argument list")) rest

end Session

end HostExpr
