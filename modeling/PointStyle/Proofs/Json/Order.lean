import PointStyle.Proofs.Json.Held

/-! The order of members. A value that is read into memory has the members of each object in order,
and of members with one name the last. A value that is held in memory is read as it is. -/
namespace PointStyle

namespace Table

variable {α : Type} {table entries : Table α} {name : String} {value : α}

/-- The insertion of a new name puts one more entry into a table. -/
theorem perm_insert (h : name ∉ table.names) :
    (table.insert name value).Perm ((name, value) :: table) := by
  induction table with
  | nil => exact .refl _
  | cons entry rest ih =>
      obtain ⟨key, old⟩ := entry
      obtain ⟨hKey, hRest⟩ := not_or.mp (mt List.mem_cons.mpr h)
      rw [insert, if_neg (Ne.symm hKey)]
      split
      · exact .refl _
      · exact ((ih hRest).cons _).trans (.swap ..)

/-- Entries with distinct new names are all put into a table. -/
theorem perm_foldl_insert (hNodup : entries.names.Nodup)
    (hFresh : ∀ name ∈ entries.names, name ∉ table.names) :
    (entries.foldl (fun table entry => table.insert entry.1 entry.2) table).Perm
    (entries ++ table) := by
  induction entries generalizing table with
  | nil => exact .refl _
  | cons entry rest ih =>
      obtain ⟨hName, hRest⟩ := List.nodup_cons.mp hNodup
      obtain ⟨hFirst, hOthers⟩ := List.forall_mem_cons.mp hFresh
      apply (ih hRest ?_).trans
      · exact ((perm_insert hFirst).append_left rest).trans List.perm_middle
      · intro name hLater hMember
        rcases mem_names_insert.mp hMember with rfl | hOld
        · exact hName hLater
        · exact hOthers name hLater hOld

/-- Entries of different names are all kept. -/
theorem perm_ofEntries (hNodup : entries.names.Nodup) : (ofEntries entries).Perm entries := by
  have hPerm := @perm_foldl_insert _ [] entries hNodup fun _ _ => List.not_mem_nil
  rwa [List.append_nil] at hPerm

/-- A table in order is the table of its entries. -/
theorem IsOrdered.ofEntries_eq (h : table.IsOrdered) : ofEntries table = table := by
  have hPairwise : ∀ {other : Table α}, other.IsOrdered →
      other.Pairwise fun first second => first.1 < second.1 :=
      fun hOther => List.pairwise_map.mp hOther
  apply (perm_ofEntries h.nodup).eq_of_pairwise ?_ (hPairwise isOrdered_ofEntries) (hPairwise h)
  intro first second _ _ hLess hMore
  exact absurd hMore (String.lt_asymm hLess)

end Table

namespace Json

mutual

/-- A value with the members of all objects in order. -/
def inOrder : Json → Json
  | .array items => .array (inOrderAll items)
  | .object members => .object (Table.ofEntries (inOrderMembers members))
  | value => value

/-- Several values with the members of all objects in order. -/
def inOrderAll : List Json → List Json
  | [] => []
  | item :: rest => item.inOrder :: inOrderAll rest

/-- Members whose values have the members of all objects in order. -/
def inOrderMembers : List (String × Json) → List (String × Json)
  | [] => []
  | (name, value) :: rest => (name, value.inOrder) :: inOrderMembers rest

end

section

variable {items : List Json} {members : List (String × Json)} {table : Table Json} {value : Json}

theorem inOrderAll_eq_map (items : List Json) : inOrderAll items = items.map inOrder := by
  induction items with
  | nil => rfl
  | cons item rest ih => rw [inOrderAll, ih, List.map_cons]

theorem inOrderMembers_eq_map (members : List (String × Json)) :
    inOrderMembers members = members.map fun member => (member.1, member.2.inOrder) := by
  induction members with
  | nil => rfl
  | cons member rest ih => rw [inOrderMembers, ih, List.map_cons]

/-- Members whose values are in order stay as they are. -/
theorem inOrderMembers_eq_self (h : ∀ member ∈ members, member.2.inOrder = member.2) :
    inOrderMembers members = members := by
  rw [inOrderMembers_eq_map]
  conv_rhs => rw [← List.map_id members]
  exact List.map_congr_left fun member hMember => Prod.ext rfl (h member hMember)

/-- A value that is held in memory is in order. -/
theorem IsHeld.inOrder_eq (h : value.IsHeld) : value.inOrder = value := by
  induction h with
  | null => rfl
  | bool b => rfl
  | number hNumber => rfl
  | string s => rfl
  | array _ ih =>
      rw [inOrder, inOrderAll_eq_map]
      exact congrArg _ ((List.map_congr_left ih).trans (List.map_id' _))
  | object hOrder _ ih => rw [inOrder, inOrderMembers_eq_self ih, hOrder.ofEntries_eq]

namespace Draft

/-- The items of an array are read in order if each of them is. -/
theorem toItems_ofItems (h : ∀ item ∈ items, (ofJson item).toJson .value = .ok item.inOrder) :
    toItems .value (ofItems items) = .ok (inOrderAll items) := by
  induction items with
  | nil => rfl
  | cons item rest ih =>
      obtain ⟨hFirst, hRest⟩ := List.forall_mem_cons.mp h
      rw [ofItems, toItems, hFirst, ih hRest]
      rfl

/-- The members of an object are read in order and put into a table one by one. -/
theorem toMembers_ofMembers
    (h : ∀ member ∈ members, (ofJson member.2).toJson .value = .ok member.2.inOrder) :
    toMembers .value table (ofMembers members) =
      .ok ((inOrderMembers members).foldl
        (fun table entry => table.insert entry.1 entry.2) table) := by
  induction members generalizing table with
  | nil => rfl
  | cons member rest ih =>
      obtain ⟨hFirst, hRest⟩ := List.forall_mem_cons.mp h
      rw [ofMembers, toMembers, hFirst]
      exact ih hRest

/-- Reading a value puts it in order. -/
theorem toJson_ofJson (value : Json) : (ofJson value).toJson .value = .ok value.inOrder := by
  induction value with
  | null => rfl
  | bool b => rfl
  | number n => rfl
  | string s => rfl
  | array items ih =>
      rw [ofJson, toJson]
      show (toItems .value (ofItems items) >>= _) = _
      rw [toItems_ofItems ih]
      rfl
  | object members ih =>
      rw [ofJson, toJson]
      show (toMembers .value [] (ofMembers members) >>= _) = _
      rw [toMembers_ofMembers ih]
      rfl

end Draft

end

end Json

end PointStyle
