import PointStyle.LiteralTable
import PointStyle.Scope

/-! Lists of names in the order of their first appearance. Attributes, variables and string codes
are all kept this way, so what holds of mentioning names one after the other holds of each. -/
namespace PointStyle

namespace Scope

/-- A list with several names in it, the new ones at the end in the order given. -/
def mentionAll (names new : List String) : List String :=
  new.foldl mention names

@[simp] theorem mentionAll_nil (names : List String) : mentionAll names [] = names := rfl

@[simp] theorem mentionAll_cons (names : List String) (name : String) (rest : List String) :
    mentionAll names (name :: rest) = mentionAll (mention names name) rest := rfl

/-- Two lists of names are mentioned one after the other. -/
theorem mentionAll_append (names first second : List String) :
    mentionAll names (first ++ second) = mentionAll (mentionAll names first) second :=
  List.foldl_append

/-- A name that is mentioned leaves the names before it where they are. -/
theorem isPrefix_mention (names : List String) (name : String) : names <+: mention names name := by
  unfold mention
  split
  · exact List.prefix_refl _
  · exact List.prefix_append _ _

/-- Mentioning names never moves or removes a name that is already listed. -/
theorem isPrefix_mentionAll (names new : List String) : names <+: mentionAll names new := by
  induction new generalizing names with
  | nil => exact List.prefix_refl _
  | cons name rest ih => exact (isPrefix_mention names name).trans (ih (mention names name))

/-- Exactly the old and the new names are listed. -/
theorem mem_mentionAll {names new : List String} {other : String} :
    other ∈ mentionAll names new ↔ other ∈ names ∨ other ∈ new := by
  induction new generalizing names with
  | nil => simp
  | cons name rest ih => rw [mentionAll_cons, ih, mem_mention, List.mem_cons, or_assoc]

/-- Names that are listed once stay so, whatever is mentioned. -/
theorem nodup_mentionAll {names : List String} (new : List String) (hNames : names.Nodup) :
    (mentionAll names new).Nodup := by
  induction new generalizing names with
  | nil => exact hNames
  | cons name rest ih => exact ih (nodup_mention name hNames)

/-- Mentioning names adds each new one once, at the place of its first appearance. -/
theorem mentionAll_eq_append_eraseDups (names new : List String) :
    mentionAll names new = names ++ (new.filter (· ∉ names)).eraseDups := by
  induction new generalizing names with
  | nil => simp
  | cons name rest ih =>
      rw [mentionAll_cons, ih]
      by_cases hName : name ∈ names
      · rw [mention, if_pos hName, List.filter_cons_of_neg (by simpa using hName)]
      -- Either side passes over further appearances of a name that has just been added.
      · have hFilter : rest.filter (· ∉ names ++ [name]) =
            (rest.filter (· ∉ names)).filter (!· == name) := by
          rw [List.filter_filter]
          refine List.filter_congr fun other _ => ?_
          rw [Bool.eq_iff_iff]
          simp [and_comm]
        rw [mention, if_neg hName, List.filter_cons_of_pos (by simpa using hName),
          List.eraseDups_cons, hFilter, List.append_assoc, List.singleton_append]

/-- From nothing, the names that are mentioned are listed in the order of their first appearance. -/
theorem mentionAll_nil_left (new : List String) : mentionAll [] new = new.eraseDups := by
  rw [mentionAll_eq_append_eraseDups, List.nil_append, List.filter_eq_self.mpr (by simp)]

end Scope

namespace LiteralTable

/-- Asking for a code mentions the string. -/
theorem strings_codeFor (table : LiteralTable) (s : String) :
    (table.codeFor s).2.strings = Scope.mention table.strings s := by
  unfold codeFor Scope.mention
  cases hCode : table.code? s with
  | some code =>
      have hMem : s ∈ table.strings := by
        rw [code?, Option.map_eq_some_iff] at hCode
        obtain ⟨place, hPlace, _⟩ := hCode
        exact List.isSome_idxOf?.mp (by rw [hPlace]; rfl)
      rw [if_pos hMem]
  | none =>
      have hMem : s ∉ table.strings := by
        rw [code?, Option.map_eq_none_iff, List.idxOf?_eq_none_iff] at hCode
        exact hCode
      rw [if_neg hMem]

/-- A string has a code exactly when it has been seen. -/
theorem isSome_code? (table : LiteralTable) (s : String) :
    (table.code? s).isSome ↔ s ∈ table.strings := by
  rw [code?, Option.isSome_map, List.isSome_idxOf?]

/-- A table that has seen more gives every known string the code it had. -/
theorem code?_of_isPrefix {table codes : LiteralTable} (hPrefix : table.strings <+: codes.strings)
    {s : String} {code : UInt32} (hCode : table.code? s = some code) :
    codes.code? s = some code := by
  rw [code?, Option.map_eq_some_iff] at hCode ⊢
  obtain ⟨place, hPlace, hOf⟩ := hCode
  refine ⟨place, ?_, hOf⟩
  obtain ⟨hLess, hHere, hBefore⟩ := List.idxOf?_eq_some_iff.mp hPlace
  have hLess' : place < codes.strings.length := Nat.lt_of_lt_of_le hLess hPrefix.length_le
  refine List.idxOf?_eq_some_iff.mpr ⟨hLess', ?_, fun j hj => ?_⟩
  · rw [← hPrefix.getElem hLess]
    exact hHere
  · rw [← hPrefix.getElem (Nat.lt_trans hj hLess)]
    exact hBefore j hj

/-- The code that is given out is the one the table then knows. -/
theorem code?_codeFor (table : LiteralTable) (s : String) :
    (table.codeFor s).2.code? s = some (table.codeFor s).1 := by
  cases hCode : table.code? s with
  | some code => rw [codeFor_of_code? hCode, hCode]
  | none =>
      have hMem : s ∉ table.strings := by
        rw [← isSome_code?, hCode]
        exact Bool.false_ne_true
      have hPlace : (table.strings ++ [s]).idxOf? s = some table.strings.length := by
        refine List.idxOf?_eq_some_iff.mpr ⟨by simp, by simp, fun j hj hEq => hMem ?_⟩
        rw [List.getElem_append_left hj] at hEq
        exact hEq ▸ List.getElem_mem hj
      simp only [codeFor, hCode]
      rw [code?, hPlace, Option.map_some, size]

/-- With fewer than 2³² strings, a code is the place of its string and nothing else. -/
theorem code?_eq_some_iff {table : LiteralTable} (hNodup : table.strings.Nodup)
    (hSize : table.size < UInt32.size) (s : String) (code : UInt32) :
    table.code? s = some code ↔ table.strings[code.toNat]? = some s := by
  rw [code?, Option.map_eq_some_iff]
  constructor
  · rintro ⟨place, hPlace, rfl⟩
    obtain ⟨hLess, hHere, _⟩ := List.idxOf?_eq_some_iff.mp hPlace
    rw [UInt32.toNat_ofNat_of_lt' (Nat.lt_trans hLess hSize), List.getElem?_eq_getElem hLess]
    exact congrArg some (by simpa using hHere)
  · intro hHere
    obtain ⟨hLess, hEq⟩ := List.getElem?_eq_some_iff.mp hHere
    refine ⟨code.toNat, List.idxOf?_eq_some_iff.mpr ⟨hLess, by simpa using hEq, fun j hj => ?_⟩, ?_⟩
    · have hApart := List.pairwise_iff_getElem.mp hNodup j code.toNat (Nat.lt_trans hj hLess)
        hLess hj
      rw [← hEq]
      simpa using hApart
    · exact UInt32.ofNat_toNat

end LiteralTable

end PointStyle
