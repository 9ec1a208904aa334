-- SUMMARY: Tables from names to what is registered under them.

/-!
# Tables of names

A table has at most one entry for a name: a later registration replaces an earlier one. What a table
says is its `find?`, and each operation has an equation in terms of it.
-/

namespace HostExpr

/-- A table from names to entries. -/
structure Names (α : Type) where
  entries : List (String × α)
  deriving DecidableEq

namespace Names

variable {α : Type}

/-- The table without entries. -/
def empty : Names α := ⟨[]⟩

instance : EmptyCollection (Names α) := ⟨empty⟩

instance : Inhabited (Names α) := ⟨empty⟩

/-- The entry of a name. -/
def find? (t : Names α) (name : String) : Option α :=
  (t.entries.find? fun (key, _) => key = name).map (·.2)

/-- The table without an entry for a name. -/
def erase (t : Names α) (name : String) : Names α :=
  ⟨t.entries.filter fun (key, _) => key ≠ name⟩

/-- The table with an entry for a name, in place of any other entry of it. -/
def insert (t : Names α) (name : String) (a : α) : Names α :=
  ⟨(name, a) :: (t.erase name).entries⟩

/-- The table with entries for several names, the last one of a name counting. -/
def insertAll (t : Names α) (entries : List (String × α)) : Names α :=
  entries.foldl (fun t (name, a) => t.insert name a) t

/-- The table of a list of entries. -/
def ofList (entries : List (String × α)) : Names α := empty.insertAll entries

@[simp] theorem find?_empty (name : String) : (empty : Names α).find? name = none := rfl

@[simp] theorem find?_erase_self (t : Names α) (name : String) :
    (t.erase name).find? name = none := by
  simp [find?, erase, List.find?_eq_none]

theorem find?_erase_of_ne (t : Names α) {name other : String} (h : other ≠ name) :
    (t.erase name).find? other = t.find? other := by
  simp only [find?, erase, List.find?_filter]
  congr 2
  funext entry
  by_cases hk : entry.1 = other <;> simp [hk, h]

@[simp] theorem find?_insert_self (t : Names α) (name : String) (a : α) :
    (t.insert name a).find? name = some a := by
  simp [find?, insert]

theorem find?_insert_of_ne (t : Names α) {name other : String} (a : α) (h : other ≠ name) :
    (t.insert name a).find? other = t.find? other := by
  rw [← find?_erase_of_ne t h]
  simp [find?, insert, Ne.symm h]

end Names

end HostExpr
