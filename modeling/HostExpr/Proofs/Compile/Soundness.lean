-- SUMMARY: What is read has a derivation.
import HostExpr.Proofs.Compile.Readers
import HostExpr.Proofs.Compile.Derivation

/-!
# Soundness of reading

Every function of the grammar reads what has a derivation from its phrase. The proof follows the
functions, with the measure that ends them.
-/

namespace HostExpr.Session

open Tokens

variable {σ : Type} {s : Session σ}

/-! ## Type arguments -/

theorem typeArguments_of_yields {ts rest : Tokens} {types : List Ty}
    (h : (s.typeArgumentList ts).Yields types rest) : TypeArguments s ts types rest := by
  obtain ⟨type, middle, htype, h⟩ := yields_typeArgumentList.1 h
  obtain ⟨name, hname, htype⟩ := yields_typeArgument.1 htype
  rcases h with ⟨more, others, hcomma, hothers, rfl⟩ | ⟨hclose, rfl⟩
  · have := hname.length_lt
    have := hcomma.length_lt
    exact .more hname htype hcomma (typeArguments_of_yields hothers)
  · exact .last hname htype hclose
termination_by ts.length

/-! ## Expressions -/

mutual

theorem derives_expression {ts rest : Tokens} {e : Expr σ}
    (h : (s.expression ts).Yields e rest) : ∃ d, Derives s .expression d ts e rest := by
  obtain ⟨condition, middle, hcondition, h⟩ := yields_expression.1 h
  obtain ⟨d₁, hd₁⟩ := derives_level hcondition
  rcases h with ⟨-, rfl, rfl⟩ |
    ⟨yes, left, colon, no, right, hyes, hbool, hleft, hnum, hcolon, hright, hnum', rfl⟩
  · exact ⟨_, .condition hd₁⟩
  · have := hcondition.length_lt
    have := hyes.length_lt
    have := hleft.length_lt
    have := hcolon.length_lt
    obtain ⟨d₂, hd₂⟩ := derives_expression hleft
    obtain ⟨d₃, hd₃⟩ := derives_expression hright
    exact ⟨_, .conditional hd₁ hbool hyes hd₂ hnum hcolon hd₃ hnum'⟩
termination_by 32 * ts.length + 23
decreasing_by
  all_goals have := Precedence.looseness_le .or
  all_goals omega

theorem derives_level {p : Precedence} {ts rest : Tokens} {e : Expr σ}
    (h : (s.level p ts).Yields e rest) : ∃ d, Derives s (.level p) d ts e rest := by
  obtain ⟨left, middle, hleft, hchain⟩ := yields_level.1 h
  have := hleft.length_lt
  obtain ⟨d₁, hd₁⟩ := derives_operand hleft
  obtain ⟨d₂, hd₂⟩ := derives_chain hchain
  exact ⟨_, .level hd₁ hd₂⟩
termination_by 32 * ts.length + 2 * p.looseness + 4

theorem derives_operand {p : Precedence} {ts rest : Tokens} {e : Expr σ}
    (h : (s.operand p ts).Yields e rest) : ∃ d, Derives s (.operand p) d ts e rest := by
  rcases yields_operand.1 h with ⟨q, hq, h⟩ | ⟨hp, h⟩
  · have := Precedence.looseness_tighter? hq
    obtain ⟨d, hd⟩ := derives_level h
    exact ⟨_, .tighter hq hd⟩
  · obtain ⟨d, hd⟩ := derives_unary h
    exact ⟨_, .tightest hp hd⟩
termination_by 32 * ts.length + 2 * p.looseness + 3

theorem derives_chain {p : Precedence} {start ts rest : Tokens} {left e : Expr σ}
    (h : (s.chain p start left ts).Yields e rest) : ∃ d, Derives s (.chain p left) d ts e rest := by
  rcases yields_chain.1 h with ⟨-, rfl, rfl⟩ |
    ⟨op, hop, next, right, after, hbegins, hleft, hright, hrole, h⟩
  · exact ⟨_, .noOperation⟩
  · have := hbegins.length_lt
    have := hright.length_lt
    have := Precedence.looseness_le p
    obtain ⟨d₁, hd₁⟩ := derives_operand hright
    split at h
    · obtain ⟨d₂, hd₂⟩ := derives_chain h
      exact ⟨_, .operations ‹_› hop hleft hbegins hd₁ hrole hd₂⟩
    · obtain ⟨rfl, rfl⟩ := h
      exact ⟨_, .operation (eq_false_of_ne_true ‹_›) hop hleft hbegins hd₁ hrole⟩
termination_by 32 * ts.length

theorem derives_unary {ts rest : Tokens} {e : Expr σ} (h : (s.unary ts).Yields e rest) :
    ∃ d, Derives s .unary d ts e rest := by
  rcases yields_unary.1 h with ⟨-, h⟩ | ⟨op, hop, next, operand, hbegins, hoperand, hrole, rfl⟩
  · obtain ⟨d, hd⟩ := derives_primary h
    exact ⟨_, .noSign hd⟩
  · have := hbegins.length_lt
    obtain ⟨d, hd⟩ := derives_primary hoperand
    exact ⟨_, .sign hop hbegins hd hrole⟩
termination_by 32 * ts.length + 2

theorem derives_primary {ts rest : Tokens} {e : Expr σ} (h : (s.primary ts).Yields e rest) :
    ∃ d, Derives s .primary d ts e rest := by
  rcases yields_primary.1 h with ⟨inside, hparen, h⟩ |
    ⟨base, middle, (hbase | ⟨token, htoken, hbase⟩), h⟩
  · have := hparen.length_lt
    obtain ⟨inner, close, after, hinner, hclose, h⟩ := yields_group.1 h
    have := hinner.length_lt
    have := hclose.length_lt
    obtain ⟨d₁, hd₁⟩ := derives_expression hinner
    rcases h with ⟨type, operand, rfl, hoperand, hrole, rfl⟩ | ⟨hobject, h⟩
    · obtain ⟨d₂, hd₂⟩ := derives_expression hoperand
      exact ⟨_, .cast hparen hd₁ hclose hd₂ hrole⟩
    · obtain ⟨d₂, hd₂⟩ := derives_suffixes h
      exact ⟨_, .group hparen hd₁ hobject hclose hd₂⟩
  · have := hbase.length_lt
    obtain ⟨d₁, hd₁⟩ := derives_named hbase
    obtain ⟨d₂, hd₂⟩ := derives_suffixes h
    exact ⟨_, .named hd₁ hd₂⟩
  · have := htoken.length_lt
    obtain ⟨d, hd⟩ := derives_suffixes h
    exact ⟨_, .literal htoken hbase hd⟩
termination_by 32 * ts.length + 1

theorem derives_named {ts rest : Tokens} {e : Expr σ} (h : (s.named ts).Yields e rest) :
    ∃ d, Derives s .named d ts e rest := by
  obtain ⟨name, middle, hname, h⟩ := yields_named.1 h
  rcases h with ⟨inside, args, callee, hparen, hargs, hcallee, harity, rfl⟩ | ⟨-, _, h⟩
  · have := hname.length_lt
    have := hparen.length_lt
    obtain ⟨d, hd⟩ := derives_arguments hargs
    exact ⟨_, .call hname hparen hd hcallee harity⟩
  · rcases yields_plainName.1 h with ⟨type, htype, rfl, rfl⟩ | ⟨hvar, type, htype, h⟩
    · exact ⟨_, .var hname htype⟩
    · rcases h with ⟨hkind, rfl, rfl⟩ |
        ⟨hkind, (⟨enum, rfl, h⟩ | ⟨henum, rfl, rfl⟩)⟩
      · exact ⟨_, .castTarget hname hvar htype hkind⟩
      · obtain ⟨place, member, value, hdot, hmember, hvalue, rfl⟩ := yields_enumMember.1 h
        exact ⟨_, .enumMember hname hvar htype hdot hmember hvalue⟩
      · exact ⟨_, .typeName hname hvar htype hkind henum⟩
termination_by 32 * ts.length

theorem derives_suffixes {ts rest : Tokens} {base e : Expr σ}
    (h : (s.suffixes base ts).Yields e rest) : ∃ d, Derives s (.suffixes base) d ts e rest := by
  rcases yields_suffixes.1 h with ⟨-, -, rfl, rfl⟩ |
    ⟨inside, type, index, close, after, hbracket, htype, hindex, hnum, hclose, h⟩ |
    ⟨name, access, after, hdot, hobject, hvoid, haccess, h⟩
  · exact ⟨_, .noSuffix⟩
  · have := hbracket.length_lt
    have := hindex.length_lt
    have := hclose.length_lt
    obtain ⟨d₁, hd₁⟩ := derives_expression hindex
    obtain ⟨d₂, hd₂⟩ := derives_suffixes h
    exact ⟨_, .index hbracket htype hd₁ hnum hclose hd₂⟩
  · have := hdot.length_lt
    have := haccess.length_lt
    obtain ⟨d₁, hd₁⟩ := derives_member haccess
    obtain ⟨d₂, hd₂⟩ := derives_suffixes h
    exact ⟨_, .access hdot hobject hvoid hd₁ hd₂⟩
termination_by 32 * ts.length

theorem derives_member {ts rest : Tokens} {object e : Expr σ}
    (h : (s.member object ts).Yields e rest) : ∃ d, Derives s (.member object) d ts e rest := by
  obtain ⟨name, middle, hname, h⟩ := yields_member.1 h
  have := hname.length_lt
  rcases h with ⟨inside, args, callee, hparen, hargs, hcallee, rfl⟩ |
    ⟨hgeneric, typeArgs, bracket, inside, args, callee, htypes, hbracket, hargs, hcallee, rfl⟩ |
    ⟨-, hgeneric, member, others, hmember, rfl, rfl⟩
  · have := hparen.length_lt
    obtain ⟨d, hd⟩ := derives_arguments hargs
    exact ⟨_, .methodCall hname hparen hd hcallee⟩
  · have := htypes.length_lt
    have := hbracket.length_lt
    obtain ⟨types, hless, htypes⟩ := yields_typeArguments.1 htypes
    obtain ⟨d, hd⟩ := derives_arguments hargs
    exact ⟨_, .genericCall hname hgeneric hless (typeArguments_of_yields htypes) hbracket hd hcallee⟩
  · exact ⟨_, .property hname hgeneric hmember⟩
termination_by 32 * ts.length

theorem derives_arguments {ts rest : Tokens} {args : List (Expr σ)}
    (h : (s.arguments ts).Yields args rest) : ∃ d, Derives s .arguments d ts args rest := by
  rcases yields_arguments.1 h with ⟨hclose, rfl⟩ | ⟨-, h⟩
  · exact ⟨_, .noArgument hclose⟩
  · obtain ⟨d, hd⟩ := derives_argumentList h
    exact ⟨_, .someArguments hd⟩
termination_by 32 * ts.length + 25

theorem derives_argumentList {ts rest : Tokens} {args : List (Expr σ)}
    (h : (s.argumentList ts).Yields args rest) : ∃ d, Derives s .argumentList d ts args rest := by
  obtain ⟨arg, middle, harg, hobject, h⟩ := yields_argumentList.1 h
  have := harg.length_lt
  obtain ⟨d₁, hd₁⟩ := derives_expression harg
  rcases h with ⟨more, others, hcomma, hothers, rfl⟩ | ⟨hclose, rfl⟩
  · have := hcomma.length_lt
    obtain ⟨d₂, hd₂⟩ := derives_argumentList hothers
    exact ⟨_, .argument hd₁ hobject hcomma hd₂⟩
  · exact ⟨_, .lastArgument hd₁ hobject hclose⟩
termination_by 32 * ts.length + 24

end

end HostExpr.Session
