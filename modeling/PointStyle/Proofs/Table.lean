import PointStyle.Table

/-! Tables as maps. In a table whose names increase, every name stands once, and each operation
changes what is stored under its own name and nothing else. -/
namespace PointStyle

namespace Table

variable {α : Type} {table : Table α} {name other : String} {value : α}

/-- The names of the table increase. -/
def IsOrdered (table : Table α) : Prop :=
  table.names.Pairwise (· < ·)

theorem isOrdered_nil : IsOrdered ([] : Table α) := List.Pairwise.nil

/-- A table in order has each name once. -/
theorem IsOrdered.nodup (h : table.IsOrdered) : table.names.Nodup := by
  refine List.Pairwise.imp (fun {first second} (hLess : first < second) hEq => ?_) h
  rw [hEq] at hLess
  exact String.lt_irrefl second hLess

theorem mem_names_insert :
    other ∈ (table.insert name value).names ↔ other = name ∨ other ∈ table.names := by
  induction table with
  | nil => simp [insert, names]
  | cons entry rest ih =>
      obtain ⟨key, old⟩ := entry
      by_cases hKey : key = name
      · simp [insert, names, hKey]
      · by_cases hLess : name < key
        · simp [insert, names, hKey, hLess]
        · rw [insert, if_neg hKey, if_neg hLess]
          simp only [names, List.map_cons, List.mem_cons] at ih ⊢
          rw [ih]
          exact or_left_comm

/-- An entry is the one that was stored or an old one. -/
theorem mem_insert {entry : String × α} (h : entry ∈ table.insert name value) :
    entry = (name, value) ∨ entry ∈ table := by
  induction table with
  | nil => exact .inl (List.mem_singleton.mp h)
  | cons first rest ih =>
      obtain ⟨key, old⟩ := first
      rw [insert] at h
      split at h <;> grind

/-- An insertion keeps a table in order. -/
theorem IsOrdered.insert (h : table.IsOrdered) (name : String) (value : α) :
    (table.insert name value).IsOrdered := by
  induction table with
  | nil => exact List.pairwise_singleton _ _
  | cons entry rest ih =>
      obtain ⟨key, old⟩ := entry
      obtain ⟨hKeys, hRest⟩ := List.pairwise_cons.mp h
      by_cases hKey : key = name
      · subst hKey
        rw [Table.insert, if_pos rfl]
        exact List.pairwise_cons.mpr ⟨hKeys, hRest⟩
      · rw [Table.insert, if_neg hKey]
        by_cases hLess : name < key
        · rw [if_pos hLess]
          refine List.pairwise_cons.mpr ⟨fun later hLater => ?_, h⟩
          rcases List.mem_cons.mp hLater with rfl | hLater
          · exact hLess
          · exact String.lt_trans hLess (hKeys later hLater)
        · rw [if_neg hLess]
          refine List.pairwise_cons.mpr ⟨fun later hLater => ?_, ih hRest⟩
          rcases mem_names_insert.mp hLater with rfl | hLater
          · exact Std.lt_of_le_of_ne (String.not_lt.mp hLess) hKey
          · exact hKeys later hLater

theorem get?_of_not_mem (h : name ∉ table.names) : table.get? name = none := by
  induction table with
  | nil => rfl
  | cons entry rest ih =>
      obtain ⟨key, old⟩ := entry
      have hKey : key ≠ name := fun hEq => h (hEq ▸ List.mem_cons_self ..)
      rw [get?, if_neg hKey, ih fun hRest => h (List.mem_cons_of_mem _ hRest)]

section Entries

variable {entries : List (String × α)}

theorem isOrdered_foldl_insert (h : table.IsOrdered) :
    (entries.foldl (fun table entry => table.insert entry.1 entry.2) table).IsOrdered := by
  induction entries generalizing table with
  | nil => exact h
  | cons entry rest ih => exact ih (h.insert entry.1 entry.2)

/-- A table of entries is in order, whatever order the entries stand in. -/
theorem isOrdered_ofEntries : (ofEntries entries).IsOrdered := isOrdered_foldl_insert isOrdered_nil

theorem mem_names_foldl_insert :
    name ∈ (entries.foldl (fun table entry => table.insert entry.1 entry.2) table).names ↔
      name ∈ entries.map (·.1) ∨ name ∈ table.names := by
  induction entries generalizing table with
  | nil => simp
  | cons entry rest ih =>
      rw [List.foldl_cons, ih, mem_names_insert, List.map_cons, List.mem_cons, or_left_comm,
        or_assoc]

/-- The table of a list of entries has just the names of the entries. -/
theorem mem_names_ofEntries : name ∈ (ofEntries entries).names ↔ name ∈ entries.map (·.1) := by
  rw [ofEntries, mem_names_foldl_insert]
  exact or_iff_left List.not_mem_nil

/-- A name with the same value wherever it is given has that value. -/
theorem get?_foldl_insert (hValue : ∀ other, (name, other) ∈ entries → other = value)
    (h : (name, value) ∈ entries ∨ table.get? name = some value) :
    (entries.foldl (fun table entry => table.insert entry.1 entry.2) table).get? name =
      some value := by
  induction entries generalizing table with
  | nil => exact h.resolve_left List.not_mem_nil
  | cons entry rest ih =>
      obtain ⟨key, first⟩ := entry
      refine ih (fun other hOther => hValue other (List.mem_cons_of_mem _ hOther)) ?_
      by_cases hKey : key = name
      · subst hKey
        right
        rw [get?_insert_self, hValue first (List.mem_cons_self ..)]
      · rw [get?_insert_of_ne _ _ (Ne.symm hKey)]
        refine h.imp_left fun hMem => ?_
        rcases List.mem_cons.mp hMem with hEq | hMem
        · cases hEq
          exact absurd rfl hKey
        · exact hMem

/-- A name whose entries all have one value has that value in the table. -/
theorem get?_ofEntries (hValue : ∀ other, (name, other) ∈ entries → other = value)
    (h : (name, value) ∈ entries) : (ofEntries entries).get? name = some value :=
  get?_foldl_insert hValue (.inl h)

end Entries

end Table

end PointStyle
