-- SUMMARY: Every request can be written as arguments, and reads back as it is.
import HostExpr.CommandLine

/-!
# Options as arguments

What arguments can ask for can be asked for in one way at least: each option as a word of its own with its
value behind `=`, and the text behind `--`, where it cannot be taken for an option (`toArguments`). Main
results: these arguments ask for just that (`ofArguments?_toArguments`), and every request that arguments can
make is of that sort (`exists_arguments_iff`).
-/

namespace HostExpr.CommandLine.Options

variable {o o' : Options} {arg : String} {rest : List String}

/-- Arguments for the options, with the text last. -/
def toArguments (o : Options) : List String :=
  (if o.fromFile then ["--file"] else []) ++ o.bindings.map ("--bind=" ++ ·) ++
    (if o.showType then ["--show-type"] else []) ++ List.replicate o.verbosity "--verbose" ++
    "--" :: o.text.toList

/-! ## Arguments one by one -/

/-- An argument that needs no value is taken before the others. -/
theorem addArguments_cons (hdashes : arg ≠ "--") (h : o.addArgument arg = some (o', false)) :
    o.addArguments (arg :: rest) = o'.addArguments rest := by
  rw [addArguments.eq_def]
  simp only [h]

theorem toList_bind (binding : String) :
    ("--bind=" ++ binding).toList = '-' :: '-' :: ("bind=".toList ++ binding.toList) := by
  rw [String.toList_append]
  rfl

/-- What stands behind the sign is the binding, whatever it is. -/
theorem addArgument_bind (o : Options) (binding : String) :
    o.addArgument ("--bind=" ++ binding) = some (o.addBinding binding, false) := by
  have hword : ∀ word : String, word.toList ≠ "bind=".toList ++ binding.toList →
      String.ofList ("bind=".toList ++ binding.toList) ≠ word := by
    rintro word hne rfl
    exact hne String.toList_ofList
  unfold addArgument
  rw [toList_bind]
  show o.addWord ("bind=".toList ++ binding.toList) = _
  unfold addWord
  split
  case h_1 heq => exact absurd heq (hword "file" (by simp))
  case h_2 heq => exact absurd heq (hword "show-type" (by simp))
  case h_3 heq => exact absurd heq (hword "verbose" (by simp))
  case h_4 heq => exact absurd heq (hword "bind" (by simp))
  case h_5 =>
    have hprefix : "bind=".toList.isPrefixOf ("bind=".toList ++ binding.toList) :=
      List.isPrefixOf_iff_prefix.2 (List.prefix_append ..)
    have hvalue : ("bind=".toList ++ binding.toList).drop 5 = binding.toList := List.drop_left' rfl
    rw [if_pos hprefix, hvalue, String.ofList_toList]

theorem addArguments_binds (o : Options) (bindings : List String) :
    o.addArguments (bindings.map ("--bind=" ++ ·) ++ rest) =
      { o with bindings := o.bindings ++ bindings }.addArguments rest := by
  induction bindings generalizing o with
  | nil => simp
  | cons binding bindings ih =>
    have hdashes : "--bind=" ++ binding ≠ "--" := fun h => by
      have hchars := congrArg String.toList h
      rw [toList_bind] at hchars
      cases hchars
    rw [List.map_cons, List.cons_append, addArguments_cons hdashes (addArgument_bind o binding), ih]
    simp [addBinding]

theorem addArguments_verbose (o : Options) (n : Nat) :
    o.addArguments (List.replicate n "--verbose" ++ rest) =
      { o with verbosity := o.verbosity + n }.addArguments rest := by
  induction n generalizing o with
  | zero => rfl
  | succ n ih =>
    have hfirst : o.addArgument "--verbose" = some ({ o with verbosity := o.verbosity + 1 }, false) := rfl
    rw [List.replicate_succ, List.cons_append, addArguments_cons (by decide) hfirst, ih]
    simp [Nat.add_comm, Nat.add_left_comm]

theorem addArguments_file (hnone : o.fromFile = false) (b : Bool) :
    o.addArguments ((if b then ["--file"] else []) ++ rest) =
      { o with fromFile := b }.addArguments rest := by
  obtain ⟨_, bindings, showType, verbosity, text⟩ := o
  cases hnone
  cases b with
  | false => rfl
  | true => exact addArguments_cons (by decide) rfl

theorem addArguments_showType (hnone : o.showType = false) (b : Bool) :
    o.addArguments ((if b then ["--show-type"] else []) ++ rest) =
      { o with showType := b }.addArguments rest := by
  obtain ⟨fromFile, bindings, _, verbosity, text⟩ := o
  cases hnone
  cases b with
  | false => rfl
  | true => exact addArguments_cons (by decide) rfl

/-! ## All of them -/

/-- Whatever can be asked for, its arguments ask for. -/
theorem ofArguments?_toArguments (h : o.text.isSome) : ofArguments? o.toArguments = some o := by
  obtain ⟨fromFile, bindings, showType, verbosity, text⟩ := o
  obtain ⟨text, rfl⟩ := Option.isSome_iff_exists.1 h
  have hall : empty.addArguments (toArguments ⟨fromFile, bindings, showType, verbosity, some text⟩) =
      some ⟨fromFile, bindings, showType, verbosity, some text⟩ := by
    unfold toArguments
    simp only [List.append_assoc]
    rw [addArguments_file rfl, addArguments_binds, addArguments_showType rfl, addArguments_verbose]
    simp [empty, addArguments, addText]
  rw [ofArguments?, hall]
  rfl

/-- Arguments can ask for just the options that have a text. -/
theorem exists_arguments_iff : (∃ args, ofArguments? args = some o) ↔ o.text.isSome := by
  constructor
  · rintro ⟨args, hargs⟩
    exact (Option.filter_eq_some_iff.1 hargs).2
  · intro htext
    exact ⟨o.toArguments, ofArguments?_toArguments htext⟩

end HostExpr.CommandLine.Options
