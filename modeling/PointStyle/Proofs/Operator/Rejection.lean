import PointStyle.Proofs.Lowering.CheckedCalls
import PointStyle.Proofs.Operator.Typing

/-! What calls that choose are turned down for. Before it lowers anything, such a call checks how
many arguments it has, the kind of an interpolation and the conditions of a case, and settles on a
type for its outputs. Once a type is settled on, only the arguments can be at fault. -/
namespace PointStyle

open Lowering Glsl

namespace TypeSet

theorem isUnique_single (t : ValueType) : (single t).isUnique := by
  cases t <;> decide

/-- Asking for a type that is there leaves that type. -/
theorem and_single {types : TypeSet} {t : ValueType} (h : t ∈ types) :
    types &&& single t = single t := by
  apply ext
  intro other
  rw [mem_and, mem_single]
  exact and_iff_right_of_imp fun hEq => hEq ▸ h

theorem meets_single_of_mem {types : TypeSet} {t : ValueType} (h : t ∈ types) :
    types.meets (single t) := by
  apply meets_of_isUnique
  rw [and_single h]
  exact isUnique_single t

end TypeSet

namespace Operator

/-- The conditions of a case. -/
def Case.conditions {α : Type} (args : List α) : List α :=
  (pairs args.dropLast).map (·.1)

end Operator

namespace Vocabulary

variable (words : Vocabulary)

/-- The types of a call are those that its operator gives at its arguments. -/
theorem infer_call {name : String} {b : Builtin} (h : words.word? name = some b)
    (args : List Expression) :
    words.registry.infer (.call name args) = b.operator.returns (words.registry.terms args) := by
  rw [words.types_call h, terms_nodes]

end Vocabulary

namespace Term

section FailsOnly

variable {Allowed : ExpressionError → Prop} {args : List Term}

/-- The check for an even number of arguments fails only if the number is odd. -/
theorem failsOnly_requireEven (h : args.length % 2 ≠ 0 → Allowed (.argsEven args.length)) :
    FailsOnly Allowed (requireEven args) := by
  unfold requireEven
  split
  · exact failsOnly_ok ()
  · exact failsOnly_error (h ‹_›)

theorem failsOnly_requireOdd (h : args.length % 2 = 0 → Allowed (.argsOdd args.length)) :
    FailsOnly Allowed (requireOdd args) := by
  unfold requireOdd
  split
  · exact failsOnly_error (h ‹_›)
  · exact failsOnly_ok ()

/-- The check for enough arguments fails only if there are fewer. -/
theorem failsOnly_requireAtLeast {count : Nat}
    (h : args.length < count → Allowed (.argsMinCount count args.length)) :
    FailsOnly Allowed (requireAtLeast args count) := by
  unfold requireAtLeast
  split
  · exact failsOnly_error (h ‹_›)
  · exact failsOnly_ok ()

/-- An argument is turned down if it may not be a truth value, or if its types are not known. -/
theorem failsOnly_requireBoolean {arg : Term} (h : ¬ arg.Has .boolean →
    FailsOnly Allowed arg.types ∧ Allowed (.expectedBoolean arg.source)) :
    FailsOnly Allowed arg.requireBoolean := by
  by_cases hHas : arg.Has .boolean
  · obtain ⟨types, hTypes, hMem⟩ := hHas
    have hMeets : types.meets .boolean := TypeSet.meets_single_of_mem hMem
    rw [requireBoolean, hTypes]
    show FailsOnly Allowed (if types.meets .boolean then pure () else _)
    rw [if_pos hMeets]
    exact failsOnly_ok ()
  · obtain ⟨hTypes, hExpected⟩ := h hHas
    refine hTypes.bind fun types => ?_
    split
    · exact failsOnly_ok ()
    · exact failsOnly_error hExpected

/-- Reading the kind of an interpolation fails only if it is none. -/
theorem failsOnly_exponent {kind : Term}
    (h : (∀ power, ¬ kind.source.Eases power) → Allowed (.invalidInterpolation kind.source)) :
    FailsOnly Allowed (Operator.Interpolate.exponent kind) := by
  by_cases hEases : ∃ power, kind.source.Eases power
  · obtain ⟨power, hEases⟩ := hEases
    rw [Operator.Interpolate.exponent_of_eases hEases]
    exact failsOnly_ok power
  · have hAllowed := h (not_exists.mp hEases)
    unfold Operator.Interpolate.exponent
    split
    · exact failsOnly_ok _
    · split
      · exact failsOnly_error hAllowed
      · exact failsOnly_ok _
    · exact failsOnly_error hAllowed

/-- The check for truth values fails only where it fails for one argument. -/
theorem failsOnly_requireBooleans (h : ∀ arg ∈ args, FailsOnly Allowed arg.requireBoolean) :
    FailsOnly Allowed (requireBooleans args) := by
  induction args with
  | nil => exact failsOnly_ok ()
  | cons arg rest ih =>
      obtain ⟨hArg, hRest⟩ := List.forall_mem_cons.mp h
      exact hArg.bind fun _ => ih hRest

/-- Sharing types fails only where inferring them fails for one argument. -/
theorem failsOnly_commonTypes (h : ∀ arg ∈ args, FailsOnly Allowed arg.types) (types : TypeSet) :
    FailsOnly Allowed (commonTypes types args) := by
  induction args generalizing types with
  | nil => exact failsOnly_ok types
  | cons arg rest ih =>
      obtain ⟨hArg, hRest⟩ := List.forall_mem_cons.mp h
      exact hArg.bind fun own => ih hRest _

end FailsOnly

end Term

namespace ExpressionError

/-- The error is something else than that the type of outputs is ambiguous. -/
def IsDecided (error : ExpressionError) : Prop :=
  ∀ args, error ≠ .ambiguousType args

end ExpressionError

/-- Inferring the types of a call never finds them ambiguous. -/
theorem Builtin.returns_isDecided (b : Builtin) {args : List Term}
    (h : ∀ arg ∈ args, Term.FailsOnly ExpressionError.IsDecided arg.types) :
    Term.FailsOnly ExpressionError.IsDecided (b.operator.returns args) := by
  cases b with
  | interpolate =>
      refine Term.failsOnly_commonTypes (fun arg hArg => h arg ?_) _
      exact List.drop_subset 3 args (Operator.everyOther_subset _ hArg)
  | matching =>
      exact Term.failsOnly_commonTypes
        (fun arg hArg => h arg (Operator.outputs_subset 2 args hArg)) _
  | casewise =>
      exact Term.failsOnly_commonTypes
        (fun arg hArg => h arg (Operator.outputs_subset 1 args hArg)) _
  | _ => exact Term.failsOnly_ok _

/-- Inferring types decides between none, so it does not fail to. -/
theorem Vocabulary.infer_isDecided (words : Vocabulary) (e : Expression) :
    Term.FailsOnly ExpressionError.IsDecided (words.registry.infer e) := by
  induction e with
  | number _ | bool _ | string _ | numberArray _ => exact Term.failsOnly_ok _
  | call name args ih =>
      cases hWord : words.word? name with
      | none =>
          rw [Registry.infer, Registry.term, Registry.callTerm, words.find?_eq, hWord]
          exact Term.failsOnly_error fun _ h => by cases h
      | some b =>
          rw [words.infer_call hWord]
          refine b.returns_isDecided fun arg hArg => ?_
          rw [Registry.terms_eq_map] at hArg
          obtain ⟨e, hMem, rfl⟩ := List.mem_map.mp hArg
          exact ih e hMem

namespace Builtin

open ExpressionError

/-- What is asked of the arguments of a call that chooses, apart from a type that its outputs share:
they are accepted, and the conditions of a case may be truth values. -/
structure Admits (b : Builtin) (args : List Expression) : Prop where
  accepts : b.Accepts args
  conditions : b = .casewise → ∀ e ∈ Operator.Case.conditions args,
    ∃ types, Registry.builtin.infer e = .ok types ∧ .boolean ∈ types

/-- A call is turned down for its arguments, and not because a type is ambiguous. -/
def Rejects (b : Builtin) (args : List Expression) (error : ExpressionError) : Prop :=
  ¬ b.Admits args ∧ error.IsDecided

/-- A call with a number of arguments that is not admitted is rejected for that. -/
theorem rejects_of_length {b : Builtin} {args : List Expression} {error : ExpressionError}
    (hCount : ¬ b.arity.Admits args.length) (hDecided : error.IsDecided) : b.Rejects args error :=
  ⟨fun hAdmits => hCount hAdmits.accepts.count, hDecided⟩

end Builtin

namespace Plan

section FailsOnly

variable {Allowed : ExpressionError → Prop} {nodes : List Node} {hint : Option TypeSet}

theorem failsOnly_requireAtLeast {least remainder : Nat}
    (hCount : ¬ (Arity.pairs least remainder).Admits nodes.length →
      Allowed (.argsMinCount least nodes.length)) :
    Term.FailsOnly Allowed (Term.requireAtLeast (Node.terms nodes) least) := by
  refine Term.failsOnly_requireAtLeast fun hFew => ?_
  rw [Node.length_terms] at hFew ⊢
  exact hCount fun hAdmits => Nat.not_le.mpr hFew hAdmits.least

theorem failsOnly_requireEven {least : Nat}
    (hCount : ¬ (Arity.pairs least 0).Admits nodes.length → Allowed (.argsEven nodes.length)) :
    Term.FailsOnly Allowed (Term.requireEven (Node.terms nodes)) := by
  refine Term.failsOnly_requireEven fun hOdd => ?_
  rw [Node.length_terms] at hOdd ⊢
  exact hCount fun hAdmits => hOdd (hAdmits.remainder 0 rfl)

/-- An interpolation is turned down for the number of its arguments, for its kind, or for want of a
type. -/
theorem failsOnly_ofInterpolation
    (hCount : ¬ (Arity.pairs 6 0).Admits nodes.length →
      Allowed (.argsEven nodes.length) ∧ Allowed (.argsMinCount 6 nodes.length))
    (hKind : ∀ kind rest, nodes = kind :: rest → (∀ power, ¬ kind.source.Eases power) →
      Allowed (.invalidInterpolation kind.source))
    (hOutput : Term.FailsOnly Allowed
      (outputTypes nodes (Operator.Interpolate.returns (Node.terms nodes)) hint)) :
    Term.FailsOnly Allowed (ofInterpolation nodes hint) := by
  have hFew : nodes.length < 6 → Allowed (.argsMinCount 6 nodes.length) := fun hLess =>
    (hCount fun hAdmits => Nat.not_le.mpr hLess hAdmits.least).2
  refine (failsOnly_requireEven fun h => (hCount h).1).bind fun _ =>
    (failsOnly_requireAtLeast fun h => (hCount h).2).bind fun _ => ?_
  rcases nodes with _ | ⟨kind, _ | ⟨input, stops⟩⟩
  · exact Term.failsOnly_error (hFew (by simp))
  · exact Term.failsOnly_error (hFew (by simp))
  · refine (Term.failsOnly_exponent (hKind kind _ rfl)).bind fun _ => hOutput.bind fun _ => ?_
    have hPairs := Operator.length_pairs stops
    simp only [List.length_cons] at hFew
    rcases hStops : Operator.pairs stops with _ | ⟨first, _ | ⟨second, rest⟩⟩
    · rw [hStops, List.length_nil] at hPairs
      exact Term.failsOnly_error (hFew (by omega))
    · rw [hStops, List.length_singleton] at hPairs
      exact Term.failsOnly_error (hFew (by omega))
    · exact Term.failsOnly_ok _

/-- A match is turned down only for its number of arguments or for the type of its outputs. -/
theorem failsOnly_ofMatch
    (hCount : ¬ (Arity.pairs 4 0).Admits nodes.length →
      Allowed (.argsEven nodes.length) ∧ Allowed (.argsMinCount 4 nodes.length))
    (hOutput : Term.FailsOnly Allowed
      (outputTypes nodes (Operator.Match.returns (Node.terms nodes)) hint)) :
    Term.FailsOnly Allowed (ofMatch nodes hint) := by
  refine (failsOnly_requireEven fun h => (hCount h).1).bind fun _ =>
    (failsOnly_requireAtLeast fun h => (hCount h).2).bind fun _ => hOutput.bind fun _ => ?_
  cases nodes with
  | nil => exact Term.failsOnly_error (hCount fun hAdmits => absurd hAdmits.least (by decide)).2
  | cons input rest =>
      obtain ⟨fallback, hLast⟩ : ∃ fallback, (input :: rest).getLast? = some fallback :=
        ⟨_, List.getLast?_eq_some_getLast (List.cons_ne_nil _ _)⟩
      rw [hLast]
      exact Term.failsOnly_ok _

/-- A case is turned down for the number of its arguments, for want of a type, or for its
conditions. -/
theorem failsOnly_ofCase
    (hCount : ¬ (Arity.pairs 3 1).Admits nodes.length →
      Allowed (.argsOdd nodes.length) ∧ Allowed (.argsMinCount 3 nodes.length))
    (hOutput : Term.FailsOnly Allowed
      (outputTypes nodes (Operator.Case.returns (Node.terms nodes)) hint))
    (hConditions : ∀ condition ∈ Operator.Case.conditions nodes,
      Term.FailsOnly Allowed condition.term.requireBoolean) :
    Term.FailsOnly Allowed (ofCase nodes hint) := by
  have hOdd : Term.FailsOnly Allowed (Term.requireOdd (Node.terms nodes)) := by
    refine Term.failsOnly_requireOdd fun hEven => ?_
    rw [Node.length_terms] at hEven ⊢
    exact (hCount fun hAdmits => by have := hAdmits.remainder 1 rfl; omega).1
  refine hOdd.bind fun _ =>
    (failsOnly_requireAtLeast fun h => (hCount h).2).bind fun _ => hOutput.bind fun _ => ?_
  cases hLast : nodes.getLast? with
  | none =>
      rw [List.getLast?_eq_none_iff.mp hLast] at hCount ⊢
      exact Term.failsOnly_error (hCount fun hAdmits => absurd hAdmits.least (by decide)).2
  | some fallback =>
      refine (Term.failsOnly_requireBooleans fun condition hCondition => ?_).bind
        fun _ => Term.failsOnly_ok _
      obtain ⟨pair, hPair, rfl⟩ := List.mem_map.mp hCondition
      exact hConditions _ (List.mem_map_of_mem hPair)

end FailsOnly

open Vocabulary ExpressionError Builtin

/-- A call that settles on a type is turned down only for its arguments. -/
theorem failsOnly_of_isUnique {b : Builtin} {args : List Expression} {hint : Option TypeSet}
    {types : TypeSet} (hConditional : b.isConditional)
    (hTypes : b.operator.returns (Node.terms (standard.nodes args)) = .ok types)
    (hUnique : (Operator.narrow types hint).isUnique) :
    Term.FailsOnly (b.Rejects args) (b.plan (standard.nodes args) hint) := by
  have hOutput : Term.FailsOnly (b.Rejects args) (outputTypes (standard.nodes args)
      (b.operator.returns (Node.terms (standard.nodes args))) hint) := by
    rw [hTypes]
    show Term.FailsOnly _ (Term.requireUnique _ (Operator.narrow types hint) >>= fun _ => _)
    rw [Term.requireUnique, if_pos hUnique]
    exact Term.failsOnly_ok _
  have hLength : (standard.nodes args).length = args.length := by
    rw [nodes_eq_map, List.length_map]
  have hCount : ∀ {error : ExpressionError}, error.IsDecided →
      ¬ b.arity.Admits (standard.nodes args).length → b.Rejects args error :=
    fun hDecided hArity => rejects_of_length (hLength ▸ hArity) hDecided
  cases b with
  | interpolate =>
      refine failsOnly_ofInterpolation (fun hArity => ⟨hCount (by simp [IsDecided]) hArity,
        hCount (by simp [IsDecided]) hArity⟩) (fun kind rest hNodes hKind => ?_) hOutput
      refine ⟨fun hAdmits => ?_, by simp [IsDecided]⟩
      obtain ⟨source, others, rfl, power, hEases⟩ := hAdmits.accepts.kind rfl
      rw [nodes_eq_map, List.map_cons] at hNodes
      cases hNodes
      have hSource : (standard.node source).source = source := Registry.source_term _ source
      exact hKind power (hSource.symm ▸ hEases)
  | matching =>
      exact failsOnly_ofMatch (fun hArity => ⟨hCount (by simp [IsDecided]) hArity,
        hCount (by simp [IsDecided]) hArity⟩) hOutput
  | casewise =>
      refine failsOnly_ofCase (fun hArity => ⟨hCount (by simp [IsDecided]) hArity,
        hCount (by simp [IsDecided]) hArity⟩) hOutput fun condition hCondition => ?_
      rw [nodes_eq_map, Operator.Case.conditions, ← List.map_dropLast, Operator.pairs_map,
        List.map_map] at hCondition
      obtain ⟨pair, hPair, rfl⟩ := List.mem_map.mp hCondition
      refine Term.failsOnly_requireBoolean fun hHas => ?_
      have hAdmits : ¬ casewise.Admits args := fun hAdmits =>
        hHas (hAdmits.conditions rfl pair.1 (List.mem_map_of_mem hPair))
      exact ⟨fun error hError => ⟨hAdmits, standard.infer_isDecided pair.1 error hError⟩,
        hAdmits, by simp [IsDecided]⟩
  | _ => cases hConditional

end Plan

end PointStyle
