/-!
Tables keyed by name. A table is an association list in increasing order of its names, compared
code point by code point; inserting keeps that order and replaces an entry of the same name.
-/
namespace PointStyle

/-- An association list from names to values. -/
abbrev Table (α : Type u) := List (String × α)

namespace Table

variable {α : Type u}

def get? (table : Table α) (name : String) : Option α :=
  match table with
  | [] => none
  | (key, value) :: rest => if key = name then some value else get? rest name

def has (table : Table α) (name : String) : Bool :=
  (table.get? name).isSome

/-- Stores a value under a name, at the place the order gives it. -/
def insert (table : Table α) (name : String) (value : α) : Table α :=
  match table with
  | [] => [(name, value)]
  | (key, old) :: rest =>
    if key = name then (name, value) :: rest
    else if name < key then (name, value) :: (key, old) :: rest
    else (key, old) :: insert rest name value

def remove (table : Table α) (name : String) : Table α :=
  table.filter (·.1 ≠ name)

/-- The table of a list of entries; of two entries with one name the later counts. -/
def ofEntries (entries : List (String × α)) : Table α :=
  entries.foldl (fun table entry => table.insert entry.1 entry.2) []

def names (table : Table α) : List String :=
  table.map (·.1)

/-- A table extended by the entries of another, which win over its own. -/
def merge (table other : Table α) : Table α :=
  other.foldl (fun table entry => table.insert entry.1 entry.2) table

@[simp] theorem get?_nil (name : String) : get? ([] : Table α) name = none := rfl

theorem get?_insert_self (table : Table α) (name : String) (value : α) :
    (table.insert name value).get? name = some value := by
  induction table with
  | nil => simp [insert, get?]
  | cons entry rest ih =>
    obtain ⟨key, old⟩ := entry
    by_cases hKey : key = name
    · simp [insert, get?, hKey]
    · by_cases hLess : name < key <;> simp [insert, get?, hKey, hLess, ih]

theorem get?_insert_of_ne (table : Table α) {name other : String} (value : α) (h : other ≠ name) :
    (table.insert name value).get? other = table.get? other := by
  induction table with
  | nil => simp [insert, get?, Ne.symm h]
  | cons entry rest ih =>
    obtain ⟨key, old⟩ := entry
    by_cases hKey : key = name
    · simp [insert, get?, hKey, Ne.symm h]
    · rw [insert, if_neg hKey]
      split <;> simp [get?, Ne.symm h, ih]

theorem get?_remove_self (table : Table α) (name : String) :
    (table.remove name).get? name = none := by
  induction table with
  | nil => rfl
  | cons entry rest ih =>
    obtain ⟨key, value⟩ := entry
    by_cases hKey : key = name
    · rw [remove, List.filter_cons_of_neg (by simp [hKey])]
      exact ih
    · rw [remove, List.filter_cons_of_pos (by simp [hKey]), get?, if_neg hKey]
      exact ih

theorem get?_remove_of_ne (table : Table α) {name other : String} (h : other ≠ name) :
    (table.remove name).get? other = table.get? other := by
  induction table with
  | nil => rfl
  | cons entry rest ih =>
    obtain ⟨key, value⟩ := entry
    by_cases hKey : key = name
    · rw [remove, List.filter_cons_of_neg (by simp [hKey]), get?, if_neg]
      · exact ih
      · exact fun hOther => h (hOther.symm.trans hKey)
    · rw [remove, List.filter_cons_of_pos (by simp [hKey]), get?, get?]
      exact congrArg (ite _ _) ih

end Table

end PointStyle
