import PointStyle.Glsl
import PointStyle.Table

/-!
What one program refers to: its attributes, variables and helper functions.
-/
namespace PointStyle

/-- The references of one program. Names stand in the order of their first appearance. -/
structure Scope where
  stage : Stage
  attributes : List String
  variableNames : List String
  functions : Table String
deriving DecidableEq, Repr

namespace Scope

def empty (stage : Stage) : Scope := ⟨stage, [], [], []⟩

/-- A list with a name in it, which is added at the end if it is new. -/
def mention (names : List String) (name : String) : List String :=
  if name ∈ names then names else names ++ [name]

def addAttribute (scope : Scope) (name : String) : Scope :=
  { scope with attributes := mention scope.attributes name }

def addVariable (scope : Scope) (name : String) : Scope :=
  { scope with variableNames := mention scope.variableNames name }

/-- Defines a helper function; a later definition of the same name wins. -/
def addFunction (scope : Scope) (name definition : String) : Scope :=
  { scope with functions := scope.functions.insert name definition }

theorem mem_mention {names : List String} {name other : String} :
    other ∈ mention names name ↔ other ∈ names ∨ other = name := by
  by_cases h : name ∈ names
  · rw [mention, if_pos h]
    exact ⟨Or.inl, fun hOr => hOr.elim id fun hEq => hEq ▸ h⟩
  · rw [mention, if_neg h, List.mem_append, List.mem_singleton]

/-- A name is listed once, at the place of its first appearance. -/
theorem nodup_mention {names : List String} (name : String) (hNames : names.Nodup) :
    (mention names name).Nodup := by
  by_cases h : name ∈ names
  · rwa [mention, if_pos h]
  · rw [mention, if_neg h]
    refine List.nodup_append.mpr ⟨hNames, List.pairwise_singleton _ _, ?_⟩
    intro a ha b hb hEq
    rw [List.mem_singleton.mp hb] at hEq
    exact h (hEq ▸ ha)

end Scope

end PointStyle
