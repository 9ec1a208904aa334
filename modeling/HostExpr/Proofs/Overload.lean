-- SUMMARY: The methods that a call can mean are among the candidates for it.
import HostExpr.Proofs.Overload.Generic

/-!
# Candidates

Whichever way a method is chosen, it is one of the candidates, and so it has the shape that the
candidates were filtered by.
-/

namespace HostExpr.Overload

variable {σ : Type} {c : Catalog σ} {helpers : List Ty} {ty : Ty} {name : String} {m : Method σ}

/-! ## The shapes of candidates -/

theorem mem_declared {arity : Nat} :
    m ∈ declared c ty name arity ↔
      m ∈ c.methods ty name ∧ m.isGeneric = false ∧ m.params.length = arity := by
  simp [declared, List.mem_filter]

theorem mem_extensions {arity : Nat} :
    m ∈ extensions c helpers ty name arity ↔
      (∃ helper ∈ helpers, m ∈ c.methods helper name) ∧ m.isExtension = true ∧
        m.isGeneric = false ∧ m.params.length = arity + 1 ∧ m.params.head? = some ty := by
  simp [extensions, List.mem_filter, and_assoc]

theorem mem_generics {slots arity : Nat} :
    m ∈ generics c ty name slots arity ↔
      m ∈ c.methods ty name ∧ m.isGeneric = true ∧ m.genericParams.length = slots ∧
        m.params.length = arity := by
  simp [generics, List.mem_filter, and_assoc]

/-! ## Parameters that accept -/

theorem accepts_self (types : List Ty) : accepts types types := by
  induction types with
  | nil => rfl
  | cons type types ih =>
    have hfirst : type.accepts type := by simp [Ty.accepts]
    have hzip : accepts (type :: types) (type :: types) = (type.accepts type && accepts types types) :=
      rfl
    rw [hzip, hfirst, ih]
    rfl

/-- Parameters that accept arguments do so at every position. -/
theorem accepts_at {params args : List Ty} (h : accepts params args) {i : Nat} {param arg : Ty}
    (hparam : params[i]? = some param) (harg : args[i]? = some arg) : param.accepts arg := by
  have hzip : (params.zip args)[i]? = some (param, arg) := by
    rw [List.getElem?_zip_eq_some]
    exact ⟨hparam, harg⟩
  exact List.all_eq_true.1 h _ (List.mem_of_getElem? hzip)

/-! ## What is chosen -/

/-- The first candidate of the very types is chosen, or else the first one that accepts the arguments. -/
theorem select?_eq_some_iff {skip : Nat} {args : List Ty} {candidates : List (Method σ)} :
    select? skip args candidates = some m ↔
      candidates.find? (fun m => m.params.drop skip = args) = some m ∨
        candidates.find? (fun m => m.params.drop skip = args) = none ∧
          candidates.find? (fun m => accepts (m.params.drop skip) args) = some m := by
  unfold select?
  cases candidates.find? fun m => m.params.drop skip = args <;> simp

theorem mem_of_select? {skip : Nat} {args : List Ty} {candidates : List (Method σ)}
    (h : select? skip args candidates = some m) : m ∈ candidates := by
  rcases select?_eq_some_iff.1 h with hexact | ⟨-, hfirst⟩
  · exact List.mem_of_find?_eq_some hexact
  · exact List.mem_of_find?_eq_some hfirst

/-- The parameters of what is chosen accept the arguments. -/
theorem accepts_of_select? {skip : Nat} {args : List Ty} {candidates : List (Method σ)}
    (h : select? skip args candidates = some m) : accepts (m.params.drop skip) args := by
  rcases select?_eq_some_iff.1 h with hexact | ⟨-, hfirst⟩
  · have hparams : m.params.drop skip = args := by simpa using List.find?_some hexact
    rw [hparams]
    exact accepts_self args
  · have haccepts := List.find?_some hfirst
    exact haccepts

/-! ## What a call means -/

/-- A call without type arguments means what is chosen among the declared methods, or else what is chosen
among the extensions. -/
theorem resolve_value (c : Catalog σ) (helpers : List Ty) (ty : Ty) (name : String) (args : List Ty) :
    (resolve c helpers ty name args).value =
      ((select? 0 args (declared c ty name args.length)).or
        (select? 1 args (extensions c helpers ty name args.length))).elim
          (.error (.unknownMethod ty.text name (Ty.texts args))) .ok := by
  unfold resolve
  cases select? 0 args (declared c ty name args.length) with
  | some m => rfl
  | none => cases select? 1 args (extensions c helpers ty name args.length) <;> rfl

theorem resolve_eq_ok_iff {args : List Ty} :
    (resolve c helpers ty name args).value = .ok m ↔
      select? 0 args (declared c ty name args.length) = some m ∨
        select? 0 args (declared c ty name args.length) = none ∧
          select? 1 args (extensions c helpers ty name args.length) = some m := by
  rw [resolve_value]
  cases select? 0 args (declared c ty name args.length) with
  | some found => simp
  | none => cases select? 1 args (extensions c helpers ty name args.length) <;> simp

theorem resolve_eq_error_iff {args : List Ty} {cause : Cause} :
    (resolve c helpers ty name args).value = .error cause ↔
      cause = .unknownMethod ty.text name (Ty.texts args) ∧
        select? 0 args (declared c ty name args.length) = none ∧
          select? 1 args (extensions c helpers ty name args.length) = none := by
  rw [resolve_value]
  cases select? 0 args (declared c ty name args.length) with
  | some found => simp
  | none => cases select? 1 args (extensions c helpers ty name args.length) <;> simp [eq_comm]

/-- A method that a call without type arguments means is a declared one or an extension. -/
theorem mem_of_resolve {args : List Ty} (h : (resolve c helpers ty name args).value = .ok m) :
    m ∈ declared c ty name args.length ∨ m ∈ extensions c helpers ty name args.length := by
  rcases resolve_eq_ok_iff.1 h with hdeclared | ⟨-, hextension⟩
  · exact .inl (mem_of_select? hdeclared)
  · exact .inr (mem_of_select? hextension)

/-- A method that a call without type arguments means is not generic. -/
theorem isGeneric_of_resolve {args : List Ty} (h : (resolve c helpers ty name args).value = .ok m) :
    m.isGeneric = false := by
  rcases mem_of_resolve h with hdeclared | hextension
  · exact (mem_declared.1 hdeclared).2.1
  · exact (mem_extensions.1 hextension).2.2.1

/-- A method that a call without type arguments means accepts the arguments, unless it is an extension. -/
theorem accepts_of_resolve {args : List Ty} (h : (resolve c helpers ty name args).value = .ok m)
    (hextension : m.isExtension = false) : accepts m.params args := by
  rcases resolve_eq_ok_iff.1 h with hdeclared | ⟨-, hfound⟩
  · have haccepts : accepts (m.params.drop 0) args := accepts_of_select? hdeclared
    rwa [List.drop_zero] at haccepts
  · have hmem := mem_extensions.1 (mem_of_select? hfound)
    cases hextension.symm.trans hmem.2.1

/-- A method that a call with type arguments means is a generic one with as many slots. -/
theorem mem_of_resolveGeneric {typeArgs args : List Ty}
    (h : (resolveGeneric c ty name typeArgs args).value = .ok m) :
    m ∈ generics c ty name typeArgs.length args.length := by
  rcases resolveGeneric_cases c ty name typeArgs args rfl with ⟨only, honly, hvalue⟩ |
    ⟨-, ⟨winner, hwins, hvalue⟩ | ⟨-, hvalue⟩ | ⟨-, -, hvalue⟩⟩
  · cases hvalue.symm.trans h
    rw [honly]
    exact List.mem_singleton_self m
  · cases hvalue.symm.trans h
    exact hwins.mem
  · cases hvalue.symm.trans h
  · cases hvalue.symm.trans h

/-! ## Calls that mean no method -/

/-- A call without type arguments that means no method is one of an unknown method. -/
theorem cause_of_resolve {args : List Ty} {cause : Cause}
    (h : (resolve c helpers ty name args).value = .error cause) :
    cause = .unknownMethod ty.text name (Ty.texts args) :=
  (resolve_eq_error_iff.1 h).1

/-- A call with type arguments that means no method is one of an unknown method, or an ambiguous one. -/
theorem cause_of_resolveGeneric {typeArgs args : List Ty} {cause : Cause}
    (h : (resolveGeneric c ty name typeArgs args).value = .error cause) :
    cause = .unknownMethod ty.text (name ++ "<" ++ Ty.texts typeArgs ++ ">") (Ty.texts args) ∨
      cause = .ambiguousMethod ty.text name := by
  rcases resolveGeneric_cases c ty name typeArgs args rfl with ⟨only, -, hvalue⟩ |
    ⟨-, ⟨winner, -, hvalue⟩ | ⟨-, hvalue⟩ | ⟨-, -, hvalue⟩⟩
  · cases hvalue.symm.trans h
  · cases hvalue.symm.trans h
  · cases hvalue.symm.trans h
    exact .inr rfl
  · cases hvalue.symm.trans h
    exact .inl rfl

end HostExpr.Overload
