-- SUMMARY: What tables of names say after many registrations, and tables with one entry a name.
import HostExpr.Session

/-!
# Theory of tables of names

After several registrations the last one of a name counts. A table is `Distinct` if no name has two
entries, as every table is that registrations alone have made; then the order of its entries does not
matter to what it says, and neither does the order in which they are registered somewhere else.
-/

namespace HostExpr

namespace Names

variable {α β : Type} {t t' : Names α}

/-! ## Entries -/

theorem find?_append (es es' : List (String × α)) (name : String) :
    (⟨es ++ es'⟩ : Names α).find? name =
      ((⟨es⟩ : Names α).find? name).or ((⟨es'⟩ : Names α).find? name) := by
  simp only [find?, List.find?_append, Option.map_or]

theorem find?_singleton_self (name : String) (a : α) :
    (⟨[(name, a)]⟩ : Names α).find? name = some a := by
  simp [find?]

theorem find?_singleton_of_ne {name key : String} (h : name ≠ key) (a : α) :
    (⟨[(key, a)]⟩ : Names α).find? name = none := by
  simp [find?, Ne.symm h]

theorem find?_map (f : α → β) (es : List (String × α)) (name : String) :
    (⟨es.map fun (key, a) => (key, f a)⟩ : Names β).find? name =
      ((⟨es⟩ : Names α).find? name).map f := by
  simp only [find?, List.find?_map, Option.map_map]
  rfl

/-- What is found is an entry. -/
theorem mem_of_find? {name : String} {a : α} (h : t.find? name = some a) : (name, a) ∈ t.entries := by
  obtain ⟨⟨key, a'⟩, hfind, rfl⟩ := Option.map_eq_some_iff.1 h
  have hkey := List.find?_some hfind
  rw [decide_eq_true_eq] at hkey
  exact hkey ▸ List.mem_of_find?_eq_some hfind

/-! ## Several registrations -/

/-- The last of several registrations of a name counts, and without one the table says what it did. -/
theorem find?_insertAll (t : Names α) (entries : List (String × α)) (name : String) :
    (t.insertAll entries).find? name =
      ((⟨entries.reverse⟩ : Names α).find? name).or (t.find? name) := by
  induction entries generalizing t with
  | nil => rfl
  | cons entry entries ih =>
    obtain ⟨key, a⟩ := entry
    have hstep : t.insertAll ((key, a) :: entries) = (t.insert key a).insertAll entries := rfl
    rw [hstep, ih, List.reverse_cons, find?_append]
    by_cases hkey : name = key
    · subst hkey
      rw [find?_insert_self, find?_singleton_self, Option.or_assoc]
      rfl
    · rw [find?_insert_of_ne _ _ hkey, find?_singleton_of_ne hkey, Option.or_none]

/-- What is found was registered, or it was there before. -/
theorem mem_of_find?_insertAll {entries : List (String × α)} {name : String} {a : α}
    (h : (t.insertAll entries).find? name = some a) : (name, a) ∈ entries ∨ t.find? name = some a := by
  rw [find?_insertAll, Option.or_eq_some_iff] at h
  rcases h with h | ⟨-, h⟩
  · exact .inl (List.mem_reverse.1 (mem_of_find? h))
  · exact .inr h

/-! ## Tables with one entry a name -/

/-- No name has two entries. -/
def Distinct (t : Names α) : Prop := (t.entries.map (·.1)).Nodup

theorem distinct_empty : (empty : Names α).Distinct := List.nodup_nil

/-- A registration keeps it that no name has two entries. -/
theorem Distinct.insert (h : t.Distinct) (name : String) (a : α) : (t.insert name a).Distinct := by
  refine List.nodup_cons.2 ⟨fun hmem => ?_, h.sublist (List.filter_sublist.map _)⟩
  obtain ⟨entry, hentry, rfl⟩ := List.mem_map.1 hmem
  exact of_decide_eq_true (List.mem_filter.1 hentry).2 rfl

/-- Registrations make tables in which no name has two entries. -/
theorem distinct_ofList (entries : List (String × α)) : (ofList entries).Distinct := by
  have hkeeps : ∀ t : Names α, t.Distinct → (t.insertAll entries).Distinct := by
    induction entries with
    | nil => exact fun t ht => ht
    | cons entry entries ih => exact fun t ht => ih _ (ht.insert entry.1 entry.2)
  exact hkeeps empty distinct_empty

/-- Without a second entry, an entry is what its name is found as. -/
theorem Distinct.find?_eq_some_iff (h : t.Distinct) {name : String} {a : α} :
    t.find? name = some a ↔ (name, a) ∈ t.entries := by
  refine ⟨mem_of_find?, fun hmem => ?_⟩
  obtain ⟨entries⟩ := t
  induction entries with
  | nil => cases hmem
  | cons entry entries ih =>
    obtain ⟨key, a'⟩ := entry
    obtain ⟨hnone, hrest⟩ := List.nodup_cons.1 h
    rcases List.mem_cons.1 hmem with heq | hmem'
    · cases heq
      simp [find?]
    · have hne : name ≠ key := by
        rintro rfl
        exact hnone (List.mem_map.2 ⟨_, hmem', rfl⟩)
      have ih := ih hrest hmem'
      simpa [find?, Ne.symm hne] using ih

theorem Distinct.of_perm (h : t.Distinct) {entries : List (String × α)}
    (hperm : entries.Perm t.entries) : (⟨entries⟩ : Names α).Distinct :=
  (hperm.map _).nodup_iff.2 h

/-- The order of the entries does not matter. -/
theorem Distinct.find?_eq_of_perm (h : t.Distinct) {entries : List (String × α)}
    (hperm : entries.Perm t.entries) (name : String) :
    (⟨entries⟩ : Names α).find? name = t.find? name := by
  refine Option.ext fun a => ?_
  rw [(h.of_perm hperm).find?_eq_some_iff, h.find?_eq_some_iff]
  exact hperm.mem_iff

end Names

/-! ## Variables of a session -/

namespace Session

variable {σ : Type}

/-- The session with other variables. -/
def withVars (s : Session σ) (vars : Names Ty) : Session σ := { s with vars := vars }

theorem withVars_self (s : Session σ) : s.withVars s.vars = s := rfl

/-- A session that differs from another one in its variables still does after a declaration. -/
theorem addVariable_eq_withVars {s base : Session σ} (h : s = base.withVars s.vars) (name : String)
    (type : Ty) : s.addVariable name type = base.withVars (s.addVariable name type).vars := by
  rw [h]
  rfl

/-- Declaring several variables changes no other table. -/
theorem foldl_addVariable (s : Session σ) (entries : List (String × Ty)) :
    entries.foldl (fun s (name, type) => s.addVariable name type) s =
      s.withVars (s.vars.insertAll entries) := by
  induction entries generalizing s with
  | nil => rfl
  | cons entry entries ih => exact ih _

end Session

end HostExpr
