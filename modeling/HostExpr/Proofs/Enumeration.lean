-- SUMMARY: How the names and the values of an enumeration lead to each other.
import HostExpr.Proofs.Names

/-!
# Names and values of enumerations

A name leads to the value of the first member of that name, and a value to the name of the first member
of that value. If no two members share a name, the name of a value leads back to the value, also where
several members share the value; if no two share a value, the value of a name leads back to the name.
-/

namespace HostExpr.EnumType

variable {type : EnumType} {member : String} {value : Int64}

theorem mem_of_nameOf? (h : type.nameOf? value = some member) : (member, value) ∈ type.members := by
  obtain ⟨⟨_, found⟩, hfind, rfl⟩ := Option.map_eq_some_iff.1 h
  obtain rfl : found = value := by simpa using List.find?_some hfind
  exact List.mem_of_find?_eq_some hfind

theorem mem_of_valueOf? (h : type.valueOf? member = some value) : (member, value) ∈ type.members :=
  Names.mem_of_find? (t := ⟨type.members⟩) h

/-- If no two members share a name, each gives its name its value. -/
theorem valueOf?_eq_some_iff (hnames : (type.members.map (·.1)).Nodup) :
    type.valueOf? member = some value ↔ (member, value) ∈ type.members :=
  Names.Distinct.find?_eq_some_iff (t := ⟨type.members⟩) hnames

/-- If no two members share a name, a name has one value. -/
theorem eq_of_mem {value' : Int64} (hnames : (type.members.map (·.1)).Nodup)
    (h : (member, value) ∈ type.members) (h' : (member, value') ∈ type.members) : value = value' :=
  Option.some.inj
    (((valueOf?_eq_some_iff hnames).2 h).symm.trans ((valueOf?_eq_some_iff hnames).2 h'))

/-- If no two members share a name, the name of a value leads back to the value. -/
theorem valueOf?_of_nameOf? (hnames : (type.members.map (·.1)).Nodup)
    (h : type.nameOf? value = some member) : type.valueOf? member = some value :=
  (valueOf?_eq_some_iff hnames).2 (mem_of_nameOf? h)

/-! ## Without repeated values -/

/-- In a table without repeated values, an entry is found by its value. -/
theorem find?_value {entries : List (String × Int64)} (hvalues : (entries.map (·.2)).Nodup)
    (h : (member, value) ∈ entries) :
    (entries.find? fun (_, v) => v = value).map (·.1) = some member := by
  induction entries with
  | nil => cases h
  | cons entry entries ih =>
    obtain ⟨hnew, hvalues⟩ := List.nodup_cons.1 hvalues
    rcases List.mem_cons.1 h with rfl | h
    · simp
    · have hne : entry.2 ≠ value := by
        rintro rfl
        exact hnew (List.mem_map.2 ⟨_, h, rfl⟩)
      rw [List.find?_cons_of_neg (by simpa using hne)]
      exact ih hvalues h

/-- If no two members share a value, the value of a name leads back to the name. -/
theorem nameOf?_of_valueOf? (hvalues : (type.members.map (·.2)).Nodup)
    (h : type.valueOf? member = some value) : type.nameOf? value = some member :=
  find?_value hvalues (mem_of_valueOf? h)

end HostExpr.EnumType
