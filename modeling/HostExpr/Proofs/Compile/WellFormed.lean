-- SUMMARY: Every compiled tree is well formed, and no evaluation of it misses a part.
import HostExpr.Proofs.Compile.Trees
import HostExpr.Proofs.Expr.Formed

/-!
# Compiled trees are well formed

A node that a session builds is well formed whatever the session knows: of the names that a node was
found under only the shape of what they led to matters.
-/

namespace HostExpr

variable {σ : Type} {s : Session σ}

/-- A method that a call means is not generic, or it has a type argument for each slot. -/
theorem Session.Resolves.slots_filled {ty : Ty} {callee : Method σ} {args : List Ty}
    (h : s.Resolves ty callee args) :
    callee.isGeneric = false ∨ callee.typeArgs.length = callee.genericParams.length := by
  cases hgeneric : callee.isGeneric with
  | false => exact .inl rfl
  | true =>
    obtain ⟨pattern, hcallee, hlength⟩ := h.exists_pattern hgeneric
    have hparams : callee.genericParams = (pattern.instantiate callee.typeArgs).genericParams :=
      congrArg Method.genericParams hcallee
    exact .inr (hlength.symm.trans (congrArg List.length hparams).symm)

theorem Session.Builds.formed {e : Expr σ} (h : s.Builds e) : e.Formed := by
  cases e with
  | method object callee args => exact ⟨h.1, h.2.slots_filled⟩
  | property object member => exact h.1
  | call callee args => exact h.2
  | bool | number | string | enum | var | typeName | convert => trivial
  | castTarget | logicalUnary | logical | arithmeticUnary | arithmetic | comparison | conditional
  | element => exact h

/-- Every node of a compiled tree is well formed, and no evaluation of it, in any of the four ways, fails
for the lack of an operand. -/
theorem Session.compile_formed {source : String} {c : Compiled σ}
    (h : (s.compile source).value = .ok c) :
    c.root.Everywhere Expr.Formed ∧ ∀ bindings host error,
      ((c.evaluate bindings host).value.1 = .error error → ¬ error.IsMissingPart) ∧
      ((c.evaluateNumber bindings host).value.1 = .error error → ¬ error.IsMissingPart) ∧
      ((c.evaluateBool bindings host).value.1 = .error error → ¬ error.IsMissingPart) ∧
      ((c.evaluateText bindings host).value.1 = .error error → ¬ error.IsMissingPart) := by
  have hformed : c.root.Everywhere Expr.Formed := (builds_of_compile h).mono fun _ => Builds.formed
  refine ⟨hformed, fun bindings host error => ?_⟩
  have hanswer : EvalM.Ends _ True (c.root.answer bindings) (fun _ => True) _ :=
    Expr.answer_complete hformed
  have hvalue : EvalM.Ends _ True (c.root.evaluate bindings) (fun _ => True) _ :=
    hanswer.bind fun a => .pure fun _ => trivial
  refine ⟨hvalue.error, ?_, ?_, ?_⟩
  · exact (hanswer.bind fun a => .lift fun _ => a.toNumber_complete).error
  · exact (hanswer.bind fun a => .lift fun _ => a.toBool_complete).error
  · exact (hanswer.bind fun a => .lift fun _ => a.toText_complete).error

theorem Session.compile_formed_disjunction :
    ∃ c : Compiled Unit,
      ((Session.new.addVariable "x" .bool).compile "!x || x").value = .ok c ∧
        c.root.Everywhere Expr.Formed := by
  obtain ⟨c, hc⟩ : (Session.new.addVariable "x" .bool : Session Unit).Compiles "!x || x" := by
    decide +kernel
  exact ⟨c, hc, (compile_formed hc).1⟩

end HostExpr
