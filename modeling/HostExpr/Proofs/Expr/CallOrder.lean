-- SUMMARY: The order in which a tree calls its host, and that each node calls once.
import HostExpr.Proofs.Expr.Watch

/-!
# The order of calls

Whatever happens in an evaluation, the nodes that call the host do so in one order, which can be read off
the tree (`callOrder`): a call comes after its receiver and arguments, these go from left to right, and so
do operands, but an index comes before its list. No node is there twice.
-/

namespace HostExpr

variable {σ : Type}

namespace Expr

mutual

/-- The places of the nodes that can call the host, in the order of their calls. -/
def callOrder (place : List Nat) : Expr σ → List (List Nat)
  | bool _ | number _ _ | string _ | enum _ | var _ _ | typeName _ _ | castTarget _ => []
  | logicalUnary _ operand | arithmeticUnary _ operand _ | convert _ operand =>
    operand.callOrder (place ++ [0])
  | logical _ left right | arithmetic _ left right _ | comparison _ left right =>
    left.callOrder (place ++ [0]) ++ right.callOrder (place ++ [1])
  | conditional condition left right =>
    condition.callOrder (place ++ [0]) ++
      (left.callOrder (place ++ [1]) ++ right.callOrder (place ++ [2]))
  | call _ args => callOrderAll place 0 args ++ [place]
  | property object member =>
    (if member.isStatic then [] else object.callOrder (place ++ [0])) ++ [place]
  | method object _ args => object.callOrder (place ++ [0]) ++ (callOrderAll place 1 args ++ [place])
  | element list index _ => index.callOrder (place ++ [1]) ++ list.callOrder (place ++ [0])

/-- The places in the trees below a place, from a position on. -/
def callOrderAll (place : List Nat) (position : Nat) : List (Expr σ) → List (List Nat)
  | [] => []
  | e :: es => e.callOrder (place ++ [position]) ++ callOrderAll place (position + 1) es

end

/-! ## Calls are made in order -/

section

variable {bindings : Names Value}

theorem afterwards_sublist {α : Type} {m : EvalM σ α} {next : α → σ → List Entry} {host : σ}
    {order : List (List Nat)} (h : ∀ a middle, ((next a middle).map Entry.place).Sublist order) :
    ((m.afterwards next host).map Entry.place).Sublist order := by
  unfold EvalM.afterwards
  split
  · exact h _ _
  · exact List.nil_sublist _

theorem callsAll_sublist {args : List (Expr σ)}
    (h : ∀ arg ∈ args, ∀ place host,
      ((arg.calls bindings place host).map Entry.place).Sublist (arg.callOrder place))
    (place : List Nat) (position : Nat) (params : List Ty) (host : σ) :
    ((callsAll bindings place position args params host).map Entry.place).Sublist
      (callOrderAll place position args) := by
  induction args generalizing position params host with
  | nil => exact .slnil
  | cons arg args ih =>
    cases params with
    | nil => exact List.nil_sublist _
    | cons param params =>
      obtain ⟨harg, hargs⟩ := List.forall_mem_cons.1 h
      rw [callsAll, callOrderAll, List.map_append]
      exact (harg _ _).append (afterwards_sublist fun _ middle => ih hargs _ _ middle)

/-- The calls of an evaluation are made in the order of the tree. -/
theorem calls_sublist_callOrder (e : Expr σ) (place : List Nat) (host : σ) :
    ((e.calls bindings place host).map Entry.place).Sublist (e.callOrder place) := by
  induction e generalizing place host with
  | bool | number | string | enum | var | typeName | castTarget => exact .slnil
  | logicalUnary _ _ ih | arithmeticUnary _ _ _ ih | convert _ _ ih =>
    rw [calls, callOrder]
    exact ih _ _
  | logical op left right ihl ihr =>
    rw [calls, callOrder, List.map_append]
    refine (ihl _ _).append (afterwards_sublist fun b middle => ?_)
    split
    · exact ihr _ _
    · exact List.nil_sublist _
  | arithmetic op left right _ ihl ihr | comparison op left right ihl ihr =>
    rw [calls, callOrder, List.map_append]
    exact (ihl _ _).append (afterwards_sublist fun _ _ => ihr _ _)
  | conditional condition left right ihc ihl ihr =>
    rw [calls, callOrder, List.map_append]
    refine (ihc _ _).append (afterwards_sublist fun b middle => ?_)
    split
    · exact (ihl _ _).trans (List.sublist_append_left _ _)
    · exact (ihr _ _).trans (List.sublist_append_right _ _)
  | call callee args ih =>
    rw [calls, callOrder, List.map_append]
    exact (callsAll_sublist ih _ _ _ _).append (afterwards_sublist fun _ _ => .refl _)
  | property object member ih =>
    rw [calls, callOrder]
    split
    · exact .refl _
    · rw [List.map_append]
      exact (ih _ _).append (afterwards_sublist fun _ _ => .refl _)
  | method object callee args iho ih =>
    rw [calls, callOrder, List.map_append]
    refine (iho _ _).append (afterwards_sublist fun receiver middle => ?_)
    rw [List.map_append]
    exact (callsAll_sublist ih _ _ _ _).append (afterwards_sublist fun _ _ => .refl _)
  | element list index _ ihl ihi =>
    rw [calls, callOrder, List.map_append]
    exact (ihi _ _).append (afterwards_sublist fun _ _ => ihl _ _)

end

/-! ## No node is in the order twice -/

/-- Distinct places, at the given one or below it. -/
def Below (place : List Nat) (places : List (List Nat)) : Prop :=
  places.Nodup ∧ ∀ p ∈ places, place <+: p

/-- Distinct places in the trees at some of the positions below a place. -/
def Spread (place : List Nat) (positions : Nat → Prop) (places : List (List Nat)) : Prop :=
  places.Nodup ∧ ∀ p ∈ places, ∃ i, positions i ∧ place ++ [i] <+: p

section

variable {place : List Nat} {positions others : Nat → Prop} {places more : List (List Nat)}

theorem below_nil : Below place [] := ⟨.nil, nofun⟩

theorem Below.spread {i : Nat} (h : Below (place ++ [i]) places) : Spread place (· = i) places :=
  ⟨h.1, fun p hp => ⟨i, rfl, h.2 p hp⟩⟩

theorem Spread.below (h : Spread place positions places) : Below place places := by
  refine ⟨h.1, fun p hp => ?_⟩
  obtain ⟨i, -, hprefix⟩ := h.2 p hp
  exact (List.prefix_append _ _).trans hprefix

/-- The trees at different positions have no place in common. -/
theorem Spread.append (h : Spread place positions places) (hmore : Spread place others more)
    (hdisjoint : ∀ i, positions i → ¬ others i) :
    Spread place (fun i => positions i ∨ others i) (places ++ more) := by
  refine ⟨List.nodup_append.2 ⟨h.1, hmore.1, fun p hp q hq heq => ?_⟩, fun p hp => ?_⟩
  · obtain ⟨i, hi, t, hprefix⟩ := h.2 p hp
    obtain ⟨j, hj, t', hprefix'⟩ := hmore.2 q hq
    rw [← hprefix, ← hprefix'] at heq
    simp only [List.append_assoc, List.append_cancel_left_eq] at heq
    exact hdisjoint i hi ((List.cons.inj heq).1 ▸ hj)
  · rcases List.mem_append.1 hp with hp | hp
    · obtain ⟨i, hi, hprefix⟩ := h.2 p hp
      exact ⟨i, .inl hi, hprefix⟩
    · obtain ⟨i, hi, hprefix⟩ := hmore.2 p hp
      exact ⟨i, .inr hi, hprefix⟩

/-- The place of a node is none of those below it. -/
theorem Spread.append_self (h : Spread place positions places) : Below place (places ++ [place]) := by
  refine ⟨List.nodup_append.2 ⟨h.1, List.nodup_cons.2 ⟨nofun, .nil⟩, fun p hp q hq heq => ?_⟩,
    fun p hp => ?_⟩
  · obtain ⟨i, -, hprefix⟩ := h.2 p hp
    have hlength := hprefix.length_le
    rw [heq, List.mem_singleton.1 hq, List.length_append, List.length_singleton] at hlength
    omega
  · rcases List.mem_append.1 hp with hp | hp
    · exact h.below.2 p hp
    · exact List.mem_singleton.1 hp ▸ List.prefix_rfl

end

theorem spread_callOrderAll {args : List (Expr σ)}
    (h : ∀ arg ∈ args, ∀ place, Below place (arg.callOrder place)) (place : List Nat)
    (position : Nat) : Spread place (position ≤ ·) (callOrderAll place position args) := by
  induction args generalizing position with
  | nil => exact ⟨.nil, nofun⟩
  | cons arg args ih =>
    obtain ⟨harg, hargs⟩ := List.forall_mem_cons.1 h
    rw [callOrderAll]
    have hfirst := (harg (place ++ [position])).spread
    have hall := hfirst.append (ih hargs (position + 1)) fun i hi hle => by omega
    refine ⟨hall.1, fun p hp => ?_⟩
    obtain ⟨i, hi, hprefix⟩ := hall.2 p hp
    exact ⟨i, by omega, hprefix⟩

theorem below_callOrder (e : Expr σ) (place : List Nat) : Below place (e.callOrder place) := by
  induction e generalizing place with
  | bool | number | string | enum | var | typeName | castTarget => exact below_nil
  | logicalUnary _ _ ih | arithmeticUnary _ _ _ ih | convert _ _ ih => exact (ih _).spread.below
  | logical _ _ _ ihl ihr | arithmetic _ _ _ _ ihl ihr | comparison _ _ _ ihl ihr =>
    exact ((ihl _).spread.append (ihr _).spread fun i hi hi' => by omega).below
  | conditional _ _ _ ihc ihl ihr =>
    have hbranches :=
      (ihl (place ++ [1])).spread.append (ihr (place ++ [2])).spread fun i hi hi' => by omega
    exact ((ihc _).spread.append hbranches fun i hi hi' => by omega).below
  | call _ _ ih => exact (spread_callOrderAll ih place 0).append_self
  | property _ member ih =>
    rw [callOrder]
    split
    · have hnone : Below (place ++ [0]) [] := below_nil
      exact hnone.spread.append_self
    · exact (ih _).spread.append_self
  | method _ _ _ iho ih =>
    rw [callOrder, ← List.append_assoc]
    exact ((iho _).spread.append (spread_callOrderAll ih place 1) fun i hi hi' => by omega).append_self
  | element _ _ _ ihl ihi =>
    exact ((ihi _).spread.append (ihl _).spread fun i hi hi' => by omega).below

/-- Each node calls at most once in an evaluation. -/
theorem nodup_calls (e : Expr σ) (bindings : Names Value) (place : List Nat) (host : σ) :
    ((e.calls bindings place host).map Entry.place).Nodup :=
  (below_callOrder e place).1.sublist (calls_sublist_callOrder e place host)

end Expr

end HostExpr
