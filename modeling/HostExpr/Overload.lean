-- SUMMARY: Choosing the method that a call means.
import HostExpr.Catalog
import HostExpr.CompileError
import HostExpr.Record

/-!
# Choosing a method

A call without type arguments means a method of the containing type with as many parameters as the
call has arguments: the first whose parameters are of the very types of the arguments, or else the
first whose parameters accept them. If there is none, the same rule applies to the extension methods
of the helper types that extend the containing type.

A call with type arguments means a generic method with as many slots and parameters. One alone is
taken as it is. Several are scored: a parameter of the very type of its argument counts more than an
open slot, and any other parameter rules the method out. The highest score wins if it is positive and
no other method reaches it. One pass over the methods finds that out (`leader?`), and the order of
declaration does not matter.
-/

namespace HostExpr.Overload

variable {σ : Type}

/-! ## Calls without type arguments -/

/-- The parameters accept the arguments, one by one. -/
def accepts (params args : List Ty) : Bool :=
  (params.zip args).all fun (param, arg) => param.accepts arg

/-- The first candidate whose parameters are of the very types of the arguments, or else the first
whose parameters accept them. The first `skip` parameters do not count. -/
def select? (skip : Nat) (args : List Ty) (candidates : List (Method σ)) : Option (Method σ) :=
  candidates.find? (fun m => m.params.drop skip = args) <|>
    candidates.find? fun m => accepts (m.params.drop skip) args

/-- The methods of a type that a call with `arity` arguments can mean. -/
def declared (c : Catalog σ) (ty : Ty) (name : String) (arity : Nat) : List (Method σ) :=
  (c.methods ty name).filter fun m => !m.isGeneric && m.params.length = arity

/-- The extension methods of a type that a call with `arity` arguments can mean. -/
def extensions (c : Catalog σ) (helpers : List Ty) (ty : Ty) (name : String) (arity : Nat) :
    List (Method σ) :=
  (helpers.flatMap fun helper => c.methods helper name).filter fun m =>
    m.isExtension && !m.isGeneric && m.params.length = arity + 1 && m.params.head? = some ty

/-- The method that `name` with arguments of the given types means on a type. -/
def resolve (c : Catalog σ) (helpers : List Ty) (ty : Ty) (name : String) (args : List Ty) :
    Logged (Except Cause (Method σ)) :=
  let chosen (what : String) (m : Method σ) : Logged (Except Cause (Method σ)) :=
    ⟨[⟨.trace, "'" ++ ty.text ++ "." ++ name ++ "' resolved to " ++ what ++ m.signature⟩], .ok m⟩
  match select? 0 args (declared c ty name args.length) with
  | some m => chosen "method " m
  | none =>
    match select? 1 args (extensions c helpers ty name args.length) with
    | some m => chosen "extension method " m
    | none => ⟨[], .error (.unknownMethod ty.text name (Ty.texts args))⟩

/-! ## Calls with type arguments -/

/-- How well a parameter fits an argument, if it does. -/
def fit? (param arg : Ty) : Option Nat :=
  if param = arg then
    some 10
  else
    match param with
    | .generic _ => some 1
    | _ => none

/-- How well parameters fit the arguments, all in all, unless one of them rules that out. The sum is a
natural number. It is at most ten for each argument, so a word of 32 bits holds it unless a call has
more than four hundred million arguments. -/
def totalFit? : List Ty → List Ty → Option Nat
  | param :: params, arg :: args => do return (← fit? param arg) + (← totalFit? params args)
  | _, _ => some 0

/-- How well a method fits the arguments, unless a parameter rules it out. -/
def score? (args : List Ty) (m : Method σ) : Option Nat := totalFit? m.params args

/-- The generic methods of a type that a call with `slots` type arguments and `arity` arguments can
mean. -/
def generics (c : Catalog σ) (ty : Ty) (name : String) (slots arity : Nat) : List (Method σ) :=
  (c.methods ty name).filter fun m =>
    m.isGeneric && m.genericParams.length = slots && m.params.length = arity

/-- The method that leads after some methods were scored: the first one of the highest score, and whether
another one has reached it. -/
structure Leader (σ : Type) where
  method : Method σ
  score : Nat
  tied : Bool

/-- Who leads after one more method. To take the lead, a score has to be positive and higher than that of
the leader. -/
def contend (args : List Ty) (leader : Option (Leader σ)) (m : Method σ) : Option (Leader σ) :=
  match score? args m, leader with
  | none, leader => leader
  | some score, none => if 0 < score then some ⟨m, score, false⟩ else none
  | some score, some leader =>
    if leader.score < score then some ⟨m, score, false⟩
    else if score = leader.score then some { leader with tied := true }
    else some leader

/-- Who leads after several methods. -/
def leader? (args : List Ty) (candidates : List (Method σ)) : Option (Leader σ) :=
  candidates.foldl (contend args) none

/-- The record about the score of a method. -/
def scoreRecord (args : List Ty) (m : Method σ) : Record :=
  match score? args m with
  | none => ⟨.trace, "generic candidate " ++ m.signature ++ " rejected"⟩
  | some n => ⟨.trace, "generic candidate " ++ m.signature ++ " scored " ++ Decimal.ofInt n⟩

/-- The generic method that `name` with type arguments and arguments of the given types means on a
type. -/
def resolveGeneric (c : Catalog σ) (ty : Ty) (name : String) (typeArgs args : List Ty) :
    Logged (Except Cause (Method σ)) :=
  match generics c ty name typeArgs.length args.length with
  | [m] =>
    ⟨[⟨.trace, "'" ++ ty.text ++ "." ++ name ++ "' resolved to its only generic candidate " ++
      m.signature⟩], .ok m⟩
  | candidates =>
    ⟨candidates.map (scoreRecord args),
      match leader? args candidates with
      | none =>
        .error (.unknownMethod ty.text (name ++ "<" ++ Ty.texts typeArgs ++ ">") (Ty.texts args))
      | some leader =>
        if leader.tied then .error (.ambiguousMethod ty.text name) else .ok leader.method⟩

end HostExpr.Overload
