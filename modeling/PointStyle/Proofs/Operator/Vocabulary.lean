import PointStyle.Operator.Builtin

/-! Registries of built-in operators. The operators may be registered under any names, and a later
registration takes the place of an earlier one. -/
namespace PointStyle

/-- A registry all of whose operators are built in. -/
structure Vocabulary where
  registry : Registry
  /-- The built-in operator of a name. -/
  word? : String → Option Builtin
  find?_eq : ∀ name, registry.find? name = (word? name).map Builtin.operator

namespace Vocabulary

def empty : Vocabulary := ⟨.empty, fun _ => none, fun _ => rfl⟩

/-- Registers a built-in operator under any name. -/
def register (words : Vocabulary) (name : String) (b : Builtin) : Vocabulary where
  registry := words.registry.register name b.operator
  word? := fun other => if other = name then some b else words.word? other
  find?_eq := by
    intro other
    by_cases hName : other = name
    · subst hName
      rw [if_pos rfl]
      exact Table.get?_insert_self _ _ _
    · rw [if_neg hName, ← words.find?_eq]
      exact Table.get?_insert_of_ne _ _ hName

/-- Of operators with distinct names, each is found under its own. -/
theorem find?_foldl_register (operators : List Builtin) (registry : Registry) (name : String)
    (hNames : (operators.map Builtin.name).Nodup) :
    (operators.foldl (fun registry b => registry.register b.name b.operator) registry).find? name =
      ((operators.find? (·.name = name)).map Builtin.operator).or (registry.find? name) := by
  induction operators generalizing registry with
  | nil => rfl
  | cons b rest ih =>
      rw [List.map_cons, List.nodup_cons] at hNames
      rw [List.foldl_cons, ih _ hNames.2, List.find?_cons]
      by_cases hName : b.name = name
      · -- No later operator of this name comes in its place.
        have hRest : rest.find? (·.name = name) = none := by
          refine List.find?_eq_none.mpr fun other hOther hEq => hNames.1 ?_
          rw [hName, ← of_decide_eq_true hEq]
          exact List.mem_map_of_mem hOther
        subst hName
        simp only [hRest, Option.map_none, Option.none_or, decide_true, Option.map_some,
          Option.some_or]
        exact Table.get?_insert_self _ _ _
      · simp only [hName, decide_false]
        congr 1
        exact Table.get?_insert_of_ne _ _ (Ne.symm hName)

/-- The built-in operators under their own names. -/
def standard : Vocabulary where
  registry := .builtin
  word? := Builtin.ofName?
  find?_eq := by
    intro name
    rw [Registry.builtin, find?_foldl_register _ _ _ (by decide)]
    exact Option.or_none

theorem name_eq_of_word? {name : String} {b : Builtin} (h : standard.word? name = some b) :
    b.name = name := by
  have hFound := List.find?_some (show Builtin.list.find? (·.name = name) = some b from h)
  exact of_decide_eq_true hFound

/-- Every built-in operator is the word of its name. -/
theorem word?_name (b : Builtin) : standard.word? b.name = some b := by
  cases b <;> decide

end Vocabulary

/-- Built-in operators are told apart by their names. -/
theorem Builtin.eq_of_name_eq {b other : Builtin} (h : b.name = other.name) : b = other := by
  have hWord := Vocabulary.word?_name b
  rw [h, Vocabulary.word?_name] at hWord
  exact (Option.some.inj hWord).symm

end PointStyle
