import PointStyle.Proofs.Expression.RoundTrip
import PointStyle.Proofs.Operator.Coverage

/-! What of a registry an expression depends on. Operators reach the calls among their arguments
only through the meanings of these, so a registry matters through the operators of the names that
are called. Whatever else is registered, earlier or later, is never looked up. -/
namespace PointStyle

open Lowering

namespace Expression

/-- The name that a call asks for. -/
def operatorName? : Expression → Option String
  | .call name _ => some name
  | _ => none

/-- The names that are called in an expression, at any depth. -/
def operatorNames (e : Expression) : List String :=
  e.parts.filterMap operatorName?

theorem mem_operatorNames_call (name : String) (args : List Expression) :
    name ∈ (call name args).operatorNames :=
  List.mem_filterMap.mpr ⟨.call name args, by simp [parts], rfl⟩

theorem operatorNames_subset_call (name : String) {args : List Expression} {arg : Expression}
    (h : arg ∈ args) : arg.operatorNames ⊆ (call name args).operatorNames := by
  apply List.filterMap_subset
  intro part hPart
  rw [parts]
  exact List.mem_cons_of_mem _ (mem_partsAll.mpr ⟨arg, h, hPart⟩)

end Expression

namespace Registry

/-- Registers built-in operators under any names, one after the other. -/
def registerAll (registry : Registry) (entries : List (String × Builtin)) : Registry :=
  entries.foldl (fun registry entry => registry.register entry.1 entry.2.operator) registry

/-- The operator that the last entry of a name gives it. -/
def lastUnder (entries : List (String × Builtin)) (name : String) : Option Operator :=
  (entries.reverse.find? (·.1 = name)).map (·.2.operator)

/-- A later entry shadows the earlier ones of its name. -/
theorem find?_registerAll (registry : Registry) (entries : List (String × Builtin))
    (name : String) :
    (registry.registerAll entries).find? name =
      (lastUnder entries name).or (registry.find? name) := by
  induction entries generalizing registry with
  | nil => rfl
  | cons entry rest ih =>
      have hFirst : (registry.register entry.1 entry.2.operator).find? name =
          (lastUnder [entry] name).or (registry.find? name) := by
        by_cases hName : entry.1 = name
        · subst hName
          simp only [lastUnder, List.reverse_singleton, List.find?_singleton, decide_true, if_true]
          exact Table.get?_insert_self _ _ _
        · simp only [lastUnder, List.reverse_singleton, List.find?_singleton, hName, decide_false]
          exact Table.get?_insert_of_ne _ _ (Ne.symm hName)
      have hLast : lastUnder (entry :: rest) name =
          (lastUnder rest name).or (lastUnder [entry] name) := by
        rw [lastUnder, List.reverse_cons, List.find?_append, Option.map_or]
        rfl
      rw [hLast, Option.or_assoc, ← hFirst]
      exact ih _

/-- An expression means the same wherever the names that it calls have the same operators. -/
theorem term_congr {registry other : Registry} (e : Expression)
    (h : ∀ name ∈ e.operatorNames, registry.find? name = other.find? name) :
    registry.term e = other.term e := by
  induction e with
  | number _ | bool _ | string _ | numberArray _ => simp only [term]
  | call name args ih =>
      have hArgs : registry.terms args = other.terms args := by
        rw [terms_eq_map, terms_eq_map]
        apply List.map_congr_left
        intro arg hArg
        apply ih arg hArg
        exact fun called hCalled =>
          h called (Expression.operatorNames_subset_call name hArg hCalled)
      rw [term, term, hArgs, callTerm, callTerm,
        h name (Expression.mem_operatorNames_call name args)]

/-- Registries cannot disturb what does not call their names. If two sequences of registrations
leave the same operator, or none, under each name that an expression calls, then the expression has
the same types under both registries, or the same error, and from any state it is lowered to the
same text or fails with the same error, and leaves the same state behind. -/
theorem same_under_called_names {entries others : List (String × Builtin)} (e : Expression)
    (h : ∀ name ∈ e.operatorNames, lastUnder entries name = lastUnder others name) :
    (empty.registerAll entries).infer e = (empty.registerAll others).infer e ∧
      ∀ hint state, (empty.registerAll entries).lower e hint state =
        (empty.registerAll others).lower e hint state := by
  have hTerm : (empty.registerAll entries).term e = (empty.registerAll others).term e := by
    apply term_congr
    intro name hName
    rw [find?_registerAll, find?_registerAll, h name hName]
  refine ⟨?_, fun hint state => ?_⟩
  · rw [infer, infer, hTerm]
  · rw [lower, lower, hTerm]

/-- The standard registry is made by registering the operators of the library. -/
theorem builtin_eq_registerAll :
    builtin = empty.registerAll (Builtin.list.map fun b => (b.name, b)) := by
  rw [registerAll, List.foldl_map]
  rfl

end Registry

/-- An attribute times a rounded number. -/
def Expression.sampleScaled : Expression :=
  .call "*" [.call "get" [.string "width"], .call "round" [.number 2.5]]

namespace Registry

/-- Entries of which two are shadowed, and which leave subtraction under the name of addition. -/
def sampleAliases : List (String × Builtin) :=
  [("get", .var), ("*", .add), ("get", .get), ("+", .subtract), ("round", .round), ("*", .multiply)]

theorem same_under_called_names_sampleAliases :
    (empty.registerAll sampleAliases).infer .sampleScaled = .ok .number ∧
      ∃ final, (empty.registerAll sampleAliases).lower .sampleScaled none (State.fresh .vertex) =
          .ok "(a_width * floor(2.5 + 0.5))" final ∧
        builtin.lower .sampleScaled none (State.fresh .vertex) =
          .ok "(a_width * floor(2.5 + 0.5))" final := by
  have hNames : ∀ name ∈ Expression.sampleScaled.operatorNames,
      lastUnder sampleAliases name = lastUnder (Builtin.list.map fun b => (b.name, b)) name := by
    intro name hName
    change name ∈ ["*", "get", "round"] at hName
    simp only [List.mem_cons, List.not_mem_nil, or_false] at hName
    rcases hName with rfl | rfl | rfl <;> rfl
  obtain ⟨hTypes, hLower⟩ := same_under_called_names .sampleScaled hNames
  rw [← builtin_eq_registerAll] at hTypes hLower
  have hBuiltin : ∃ text final, builtin.lower .sampleScaled none (State.fresh .vertex) =
      .ok text final ∧ text = "(a_width * floor(2.5 + 0.5))" := ⟨_, _, rfl, by decide +kernel⟩
  obtain ⟨_, final, hBuiltin, rfl⟩ := hBuiltin
  exact ⟨hTypes.trans rfl, final, (hLower none _).trans hBuiltin, hBuiltin⟩

end Registry

end PointStyle
