-- SUMMARY: Filling the slots of a type: which slots remain, and that their names do not matter.
import HostExpr.Ty

/-!
# Slots and their type arguments

A substitution looks a slot up once, and takes the type argument at the position of its parameter as it is.
So no slot of a parameter is left where every parameter has an argument (`not_mentions_substitute`), a type
without a slot that has an argument stays as it is (`substitute_eq_self`), and it makes no difference which
names parameters and slots have (`substitute_renameSlots`).
-/

namespace HostExpr.Ty

/-- The name is a slot of the type, in whichever depth of lists. -/
def Mentions (name : String) : Ty → Prop
  | generic slot => slot = name
  | list element => element.Mentions name
  | _ => False

/-- Whether a type has a slot can be computed. -/
instance decidableMentions (name : String) : (ty : Ty) → Decidable (ty.Mentions name)
  | generic slot => inferInstanceAs (Decidable (slot = name))
  | list element => decidableMentions name element
  | void | bool | string | number _ | enum _ | object _ => isFalse id

/-- The type with other names for its slots. -/
def renameSlots (f : String → String) : Ty → Ty
  | generic name => generic (f name)
  | list element => list (element.renameSlots f)
  | ty => ty

/-- The type arguments, and behind them a slot of the new name for each parameter that has none. -/
def completeArgs (f : String → String) (params : List String) (args : List Ty) : List Ty :=
  args ++ (params.drop args.length).map fun name => generic (f name)

variable {params : List String} {args : List Ty} {name : String} {f : String → String}

theorem completeArgs_of_length_le (h : params.length ≤ args.length) : completeArgs f params args = args := by
  unfold completeArgs
  rw [List.drop_of_length_le h, List.map_nil, List.append_nil]

/-! ## Looking a slot up -/

theorem argumentFor?_cons (param : String) (params : List String) (arg : Ty) (args : List Ty)
    (name : String) : argumentFor? (param :: params) (arg :: args) name =
      if param = name then some arg else argumentFor? params args name := by
  unfold argumentFor?
  rw [List.zip_cons_cons, List.find?_cons]
  by_cases h : param = name <;> simp [h]

theorem argumentFor?_nil (params : List String) (name : String) : argumentFor? params [] name = none := by
  unfold argumentFor?
  rw [List.zip_nil_right]
  rfl

theorem mem_of_argumentFor? {arg : Ty} (h : argumentFor? params args name = some arg) : arg ∈ args := by
  obtain ⟨⟨param, arg⟩, hfind, rfl⟩ := Option.map_eq_some_iff.1 h
  exact (List.of_mem_zip (List.mem_of_find?_eq_some hfind)).2

theorem argumentFor?_of_notMem (h : name ∉ params) : argumentFor? params args name = none := by
  refine Option.map_eq_none_iff.2 (List.find?_eq_none.2 fun ⟨param, arg⟩ hmem hname => ?_)
  exact h (of_decide_eq_true hname ▸ (List.of_mem_zip hmem).1)

/-- The type argument of a slot stands at the position of its parameter. -/
theorem argumentFor?_eq_getElem? (h : name ∈ params) :
    argumentFor? params args name = args[params.idxOf name]? := by
  induction params generalizing args with
  | nil => cases h
  | cons param params ih =>
    cases args with
    | nil => rw [argumentFor?_nil, List.getElem?_nil]
    | cons arg args =>
      rw [argumentFor?_cons]
      by_cases hparam : param = name
      · rw [if_pos hparam, hparam, List.idxOf_cons_self]
        rfl
      · rw [if_neg hparam, List.idxOf_cons, beq_eq_false_iff_ne.2 hparam, cond_false,
          List.getElem?_cons_succ]
        exact ih ((List.mem_cons.1 h).resolve_left (Ne.symm hparam))

/-- A slot is found under its new name where it was, if no other parameter was given that name. -/
theorem argumentFor?_map (h : ∀ param ∈ params, f param = f name → param = name) :
    argumentFor? (params.map f) args (f name) = argumentFor? params args name := by
  induction params generalizing args with
  | nil => rfl
  | cons param params ih =>
    cases args with
    | nil => rfl
    | cons arg args =>
      have hparam : f param = f name ↔ param = name := ⟨h param List.mem_cons_self, congrArg f⟩
      rw [List.map_cons, argumentFor?_cons, argumentFor?_cons,
        ih fun param hmem => h param (List.mem_cons_of_mem _ hmem)]
      simp only [hparam]

/-- Where the type arguments are completed, each parameter has its own or else its slot. -/
theorem argumentFor?_completeArgs (h : name ∈ params) :
    argumentFor? params (completeArgs f params args) name =
      some ((argumentFor? params args name).getD (generic (f name))) := by
  induction params generalizing args with
  | nil => cases h
  | cons param params ih =>
    cases args with
    | nil =>
      have hcomplete : completeArgs f (param :: params) [] = generic (f param) :: completeArgs f params [] :=
        rfl
      rw [hcomplete, argumentFor?_cons, argumentFor?_nil]
      by_cases hparam : param = name
      · rw [if_pos hparam, hparam]
        rfl
      · rw [if_neg hparam, ih ((List.mem_cons.1 h).resolve_left (Ne.symm hparam)), argumentFor?_nil]
    | cons arg args =>
      have hcomplete : completeArgs f (param :: params) (arg :: args) = arg :: completeArgs f params args := by
        unfold completeArgs
        rw [List.length_cons, List.drop_succ_cons, List.cons_append]
      rw [hcomplete, argumentFor?_cons, argumentFor?_cons]
      by_cases hparam : param = name
      · rw [if_pos hparam, if_pos hparam]
        rfl
      · rw [if_neg hparam, if_neg hparam, ih ((List.mem_cons.1 h).resolve_left (Ne.symm hparam))]

/-! ## Filling slots -/

/-- Where every parameter has a type argument and none of these mentions it, the parameter is not left. -/
theorem not_mentions_substitute (hname : name ∈ params) (hlength : params.length ≤ args.length)
    (hargs : ∀ arg ∈ args, ¬ arg.Mentions name) (ty : Ty) :
    ¬ (ty.substitute params args).Mentions name := by
  induction ty with
  | generic slot =>
    unfold substitute
    by_cases hslot : slot = name
    · subst hslot
      have hposition := Nat.lt_of_lt_of_le (List.idxOf_lt_length_of_mem hname) hlength
      rw [argumentFor?_eq_getElem? hname, List.getElem?_eq_getElem hposition]
      exact hargs _ (List.getElem_mem hposition)
    · cases harg : argumentFor? params args slot with
      | some arg => exact hargs arg (mem_of_argumentFor? harg)
      | none => exact hslot
  | list element ih => exact ih
  | void | bool | string | number | enum | object => exact id

/-- A type stays as it is if none of its slots has a type argument: it may have no slot, one of another name,
or one of a parameter that comes behind the type arguments. -/
theorem substitute_eq_self {ty : Ty}
    (h : ∀ name ∈ params, ty.Mentions name → args.length ≤ params.idxOf name) :
    ty.substitute params args = ty := by
  induction ty with
  | generic slot =>
    show (argumentFor? params args slot).getD (generic slot) = generic slot
    by_cases hslot : slot ∈ params
    · rw [argumentFor?_eq_getElem? hslot, List.getElem?_eq_none (h slot hslot rfl)]
      rfl
    · rw [argumentFor?_of_notMem hslot]
      rfl
  | list element ih => exact congrArg list (ih h)
  | void | bool | string | number | enum | object => rfl

/-- Other names for the slots of a type and for the parameters make no difference to what the slots are
filled with: slots that have no type argument keep their new names. -/
theorem substitute_renameSlots (hinjective : ∀ a ∈ params, ∀ b ∈ params, f a = f b → a = b)
    (hkeeps : ∀ a ∉ params, f a = a) {ty : Ty} (hfresh : ∀ a ∈ params, ¬ ty.Mentions (f a)) :
    (ty.renameSlots f).substitute (params.map f) args =
      ty.substitute params (completeArgs f params args) := by
  induction ty with
  | generic slot =>
    show (argumentFor? (params.map f) args (f slot)).getD (generic (f slot)) =
      (argumentFor? params (completeArgs f params args) slot).getD (generic slot)
    by_cases hslot : slot ∈ params
    · rw [argumentFor?_map fun param hmem => hinjective param hmem slot hslot,
        argumentFor?_completeArgs hslot]
      rfl
    · have hnew : slot ∉ params.map f := fun hmem => by
        obtain ⟨param, hparam, heq⟩ := List.mem_map.1 hmem
        exact hfresh param hparam heq.symm
      rw [hkeeps slot hslot, argumentFor?_of_notMem hnew, argumentFor?_of_notMem hslot]
  | list element ih => exact congrArg list (ih hfresh)
  | void | bool | string | number | enum | object => rfl

/-- A slot in any depth of lists is filled with the type argument at the position of its parameter, as that
is. -/
theorem substitute_repeat {arg : Ty} (hname : name ∈ params) (harg : args[params.idxOf name]? = some arg)
    (depth : Nat) :
    (Nat.repeat list depth (generic name)).substitute params args = Nat.repeat list depth arg := by
  induction depth with
  | zero =>
    show (argumentFor? params args name).getD (generic name) = arg
    rw [argumentFor?_eq_getElem? hname, harg]
    rfl
  | succ depth ih => exact congrArg list ih

end HostExpr.Ty
