-- SUMMARY: Compiling a text in a session, and evaluating what was compiled.
import HostExpr.Compile.Grammar
import HostExpr.Expr.Evaluation

/-!
# Compiled expressions

`Session.compile` goes from a text to a tree; the first fault in the text, lexical ones before all
others, is the error. A compiled expression keeps nothing between evaluations: each one takes its own
bindings and the state of the host, and a failure does not keep the next one from succeeding.

Both leave records: one at the start of a compilation, those of the resolution of names, one at its
successful end, and one at the start of each evaluation.
-/

namespace HostExpr

variable {σ : Type}

/-- A compiled expression: the text it came from, and its tree. -/
structure Compiled (σ : Type) where
  source : String
  root : Expr σ

/-- Compiles a text. -/
def Session.compile (s : Session σ) (source : String) :
    Logged (Except CompileError (Compiled σ)) :=
  let start : Record := ⟨.debug, "compiling '" ++ source ++ "'"⟩
  match lex source with
  | .error e => ⟨[start], .error (.ofLexError e)⟩
  | .ok text =>
    match s.wholeExpression text.tokens with
    | .failed log fault => ⟨start :: log, .error (.ofFault text fault)⟩
    | .done log root _ _ =>
      let finish : Record :=
        ⟨.debug, "compiled '" ++ source ++ "' to " ++ root.text ++ " of type " ++ root.type.text⟩
      ⟨start :: log ++ [finish], .ok ⟨source, root⟩⟩

namespace Compiled

/-- The type of the expression. -/
def type (c : Compiled σ) : Ty := c.root.type

/-- Evaluates the expression in one of the four ways. -/
def run {α : Type} (c : Compiled σ) (way : Names Value → Expr σ → EvalM σ α)
    (bindings : Names Value) (host : σ) : Logged (Except EvalError α × σ) :=
  ⟨[⟨.debug, "evaluating '" ++ c.source ++ "'"⟩], way bindings c.root host⟩

/-- The value of the expression. -/
def evaluate (c : Compiled σ) (bindings : Names Value) (host : σ) :
    Logged (Except EvalError Value × σ) :=
  c.run Expr.evaluate bindings host

/-- The number that the expression comes to. -/
def evaluateNumber (c : Compiled σ) (bindings : Names Value) (host : σ) :
    Logged (Except EvalError Float × σ) :=
  c.run Expr.evaluateNumber bindings host

/-- The truth value that the expression comes to. -/
def evaluateBool (c : Compiled σ) (bindings : Names Value) (host : σ) :
    Logged (Except EvalError Bool × σ) :=
  c.run Expr.evaluateBool bindings host

/-- The text that the expression comes to. -/
def evaluateText (c : Compiled σ) (bindings : Names Value) (host : σ) :
    Logged (Except EvalError String × σ) :=
  c.run Expr.evaluateText bindings host

end Compiled

end HostExpr
