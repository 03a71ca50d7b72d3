import PointStyle.Proofs.Lowering.HandingDown

/-! The type of outputs. A call that chooses between outputs settles on one type that they share,
and an output that is such a call settles on a type again, from what its own outputs share and what
it is asked for. All of them settle on the same type: the outermost call finds it, and each call
hands it down to its outputs as their hint. -/
namespace PointStyle

open Lowering

namespace Operator

variable {args : List Term} {types : Except ExpressionError TypeSet} {hint : Option TypeSet}
  {output : TypeSet}

/-- A call settles on a type at once if its own types and the hint leave just one. -/
theorem outputType_of_isUnique {own : TypeSet} (hTypes : types = .ok own)
    (hUnique : (narrow own hint).isUnique) :
    outputType args types hint = pure (narrow own hint) := by
  subst hTypes
  show (Lowering.check (Term.requireUnique args (narrow own hint)) >>= fun _ => _) = _
  rw [Term.requireUnique, if_pos hUnique]
  rfl

/-- A type that is settled on is what the hint leaves of the types, and it is the only one. -/
theorem outputType_ok {state final : State}
    (h : outputType args types hint state = .ok output final) :
    ∃ own, types = .ok own ∧ output = narrow own hint ∧ output.isUnique := by
  cases types with
  | error _ => cases h
  | ok own =>
      cases hUnique : (narrow own hint).isUnique with
      | true =>
          rw [outputType_of_isUnique rfl hUnique] at h
          cases h
          exact ⟨own, rfl, rfl, hUnique⟩
      | false =>
          change (Lowering.check (Term.requireUnique args (narrow own hint)) >>= fun _ => _) state =
            _ at h
          rw [Term.requireUnique, hUnique] at h
          cases h

end Operator

namespace Builtin

open Operator

/-- The outputs of arguments that are all changed are the changed outputs. -/
theorem outputs_map {α β : Type} (b : Builtin) (f : α → β) (args : List α) :
    b.outputs (args.map f) = (b.outputs args).map f := by
  cases b with
  | interpolate =>
      simp only [outputs, Interpolate.outputs, ← List.map_drop, pairs_map, List.map_map]
      rfl
  | matching =>
      simp only [outputs, Match.outputs, ← List.map_drop, ← List.map_dropLast, pairs_map,
        List.map_append, List.map_map, List.getLast?_map, Option.toList_map]
      rfl
  | casewise =>
      simp only [outputs, Case.outputs, ← List.map_dropLast, pairs_map, List.map_append,
        List.map_map, List.getLast?_map, Option.toList_map]
      rfl
  | _ => rfl

/-- The types of a call are types of all its outputs. The indices of the outputs are not those that
the types are taken from, but they are among them. -/
theorem has_of_mem_outputs {b : Builtin} {args : List Term} {own : TypeSet} {t : ValueType}
    (hTypes : b.operator.returns args = .ok own) (hMem : t ∈ own) :
    ∀ term ∈ b.outputs args, term.Has t := by
  have hHas : ∀ {types : TypeSet} {terms : List Term}, Term.commonTypes types terms = .ok own →
      ∀ term ∈ terms, term.Has t := by
    intro types terms hCommon term hTerm
    obtain ⟨wider, hWider, hSubset⟩ := (Term.commonTypes_ok hCommon).2 term hTerm
    exact ⟨wider, hWider, hSubset t hMem⟩
  have hSecond : ∀ {terms : List Term}, ∀ term ∈ (pairs terms).map (·.2),
      term ∈ everyOther (terms.drop 1) := by
    intro terms term hTerm
    obtain ⟨pair, hPair, rfl⟩ := List.mem_map.mp hTerm
    exact mem_everyOther_of_mem_pairs hPair
  have hDropped : ∀ {terms : List Term}, ∀ term ∈ (pairs terms.dropLast).map (·.2),
      term ∈ everyOther (terms.drop 1) :=
    fun term hTerm => hSecond term (List.map_subset _ (fun _ => mem_pairs_of_dropLast) hTerm)
  intro term hTerm
  cases b with
  | interpolate =>
      refine hHas hTypes term ?_
      have hPlace := hSecond term hTerm
      rwa [List.drop_drop] at hPlace
  | matching =>
      refine hHas hTypes term ?_
      rcases List.mem_append.mp hTerm with hBranch | hFallback
      · have hPlace := hDropped term hBranch
        rw [List.drop_drop] at hPlace
        exact List.mem_append_left _ hPlace
      · exact List.mem_append_right _ hFallback
  | casewise =>
      refine hHas hTypes term ?_
      exact (List.mem_append.mp hTerm).elim
        (fun hBranch => List.mem_append_left _ (hDropped term hBranch))
        (List.mem_append_right _)
  | _ => cases hTerm

end Builtin

namespace Vocabulary

/-- An expression that is reached from another by going from calls that choose to their outputs. -/
inductive Yields (words : Vocabulary) : Expression → Expression → Prop
  | output {name : String} {b : Builtin} {args : List Expression} {e : Expression}
      (hWord : words.word? name = some b) (hMem : e ∈ b.outputs args) :
      Yields words (.call name args) e
  | nested {name : String} {b : Builtin} {args : List Expression} {middle e : Expression}
      (hWord : words.word? name = some b) (hMem : middle ∈ b.outputs args)
      (hYields : Yields words middle e) : Yields words (.call name args) e

variable (words : Vocabulary)

theorem has_of_mem_outputs {name : String} {b : Builtin} (hWord : words.word? name = some b)
    {args : List Expression} {t : ValueType} (h : (words.registry.term (.call name args)).Has t) :
    ∀ e ∈ b.outputs args, (words.registry.term e).Has t := by
  obtain ⟨own, hTypes, hMem⟩ := h
  intro e hOutput
  refine Builtin.has_of_mem_outputs ((words.infer_call hWord args).symm.trans hTypes) hMem _ ?_
  rw [Registry.terms_eq_map, Builtin.outputs_map]
  exact List.mem_map_of_mem hOutput

/-- A call that may have a type, and is asked for it, settles on it. -/
theorem outputType_of_has (args : List Term) {e : Expression} {t : ValueType}
    (h : (words.registry.term e).Has t) :
    Operator.outputType args (words.registry.infer e) (some (.single t)) = pure (.single t) := by
  obtain ⟨own, hTypes, hMem⟩ := h
  have hNarrow : Operator.narrow own (some (.single t)) = .single t := TypeSet.and_single hMem
  have hUnique : (Operator.narrow own (some (.single t))).isUnique := by
    rw [hNarrow]
    exact TypeSet.isUnique_single t
  exact (Operator.outputType_of_isUnique hTypes hUnique).trans (congrArg pure hNarrow)

/-- A type that an expression may have is one that all may have that its value may come from. -/
theorem has_of_yields {e inner : Expression} {t : ValueType} (hYields : words.Yields e inner)
    (h : (words.registry.term e).Has t) : (words.registry.term inner).Has t := by
  induction hYields with
  | output hWord hMem => exact words.has_of_mem_outputs hWord h _ hMem
  | nested hWord hMem _ ih => exact ih (words.has_of_mem_outputs hWord h _ hMem)

end Vocabulary

namespace Registry

open Vocabulary

variable {b : Builtin} {args : List Expression} {hint : Option TypeSet} {state final : State}

/-- If a call that chooses settles on a type, the hint leaves room for the type, and everything that
its value may come from, at any depth, may have it. The call hands the type down to its outputs.
Each call that chooses among these settles on the type again when it is asked for it, and hands it
down further, so every output that is not such a call is lowered with just this type as its hint. -/
theorem one_type_reaches_every_output (hConditional : b.isConditional) {output : TypeSet}
    (hOutput : Operator.outputType (builtin.terms args) (builtin.infer (.call b.name args)) hint
      state = .ok output final) :
    ∃ t, output = .single t ∧ (∀ hinted ∈ hint, t ∈ hinted) ∧ HandsDown b args hint output ∧
      ∀ inner, standard.Yields (.call b.name args) inner →
        (∃ types, builtin.infer inner = .ok types ∧ t ∈ types) ∧
        ∀ (nested : Builtin) (nestedArgs : List Expression), inner = .call nested.name nestedArgs →
          nested.isConditional →
          (∀ state, Operator.outputType (builtin.terms nestedArgs) (builtin.infer inner)
            (some output) state = .ok output state) ∧
          HandsDown nested nestedArgs (some output) output := by
  obtain ⟨own, hTypes, hNarrow, hUnique⟩ := Operator.outputType_ok hOutput
  obtain ⟨t, rfl⟩ := TypeSet.exists_eq_single hUnique
  have hBoth : t ∈ own ∧ t ∈ hint.getD .any := by
    rw [← TypeSet.mem_and, ← Operator.narrow, ← hNarrow, TypeSet.mem_single]
  obtain ⟨hMem, hHint⟩ := hBoth
  have hHas : (builtin.term (.call b.name args)).Has t := ⟨own, hTypes, hMem⟩
  refine ⟨t, rfl, ?_, ?_, fun inner hYields => ?_⟩
  · rintro hinted rfl
    exact hHint
  · exact handsDown hConditional hTypes hNarrow hUnique
  · have hInner := standard.has_of_yields hYields hHas
    refine ⟨hInner, ?_⟩
    rintro nested nestedArgs rfl hNested
    constructor
    · intro state
      exact congrFun (standard.outputType_of_has _ hInner) state
    · obtain ⟨types, hInnerTypes, hInnerMem⟩ := hInner
      exact handsDown hNested hInnerTypes (TypeSet.and_single hInnerMem).symm hUnique

/-- The arguments of an interpolation between two named colours. -/
def sampleRamp : List Expression :=
  [.call "linear" [], .call "zoom" [], .number 1, .string "red", .number 2, .string "green"]

/-- The arguments of a case with a match as its fallback, which has the interpolation as its own. -/
def sampleShades : List Expression :=
  [.call "get" [.string "hot"], .string "red",
    .call "match" [.call "get" [.string "kind"], .string "a", .string "blue",
      .call "interpolate" sampleRamp]]

/-- The case settles on colours, and the interpolation two calls further down lowers its outputs as
colours, of which "green" is one. -/
theorem one_type_reaches_every_output_sampleShades :
    Operator.outputType (builtin.terms sampleShades) (builtin.infer (.call "case" sampleShades))
        (some (.colour ||| .number)) (State.fresh .vertex) = .ok .colour (State.fresh .vertex) ∧
      HandsDown .casewise sampleShades (some (.colour ||| .number)) .colour ∧
      standard.Yields (.call "case" sampleShades) (.call "interpolate" sampleRamp) ∧
      HandsDown .interpolate sampleRamp (some .colour) .colour ∧
      (.string "green", some .colour) ∈ standard.visits .interpolate sampleRamp (some .colour) := by
  have hTypes : ∃ own, builtin.infer (.call "case" sampleShades) = .ok own ∧
      Operator.narrow own (some (.colour ||| .number)) = .colour := ⟨_, rfl, by decide +kernel⟩
  obtain ⟨own, hTypes, hNarrow⟩ := hTypes
  have hUnique : (Operator.narrow own (some (.colour ||| .number))).isUnique := by
    rw [hNarrow]
    decide
  have hOutput : Operator.outputType (builtin.terms sampleShades)
      (builtin.infer (.call "case" sampleShades)) (some (.colour ||| .number)) = pure .colour :=
    (Operator.outputType_of_isUnique hTypes hUnique).trans (congrArg pure hNarrow)
  have hYields : standard.Yields (.call "case" sampleShades) (.call "interpolate" sampleRamp) := by
    refine .nested (word?_name .casewise) (List.mem_append_right _ (List.mem_singleton_self _)) ?_
    exact .output (word?_name .matching) (List.mem_append_right _ (List.mem_singleton_self _))
  have hSettled := congrFun hOutput (State.fresh .vertex)
  obtain ⟨_, _, _, hHandsDown, hInner⟩ :=
    one_type_reaches_every_output (b := .casewise) rfl hSettled
  have hRamp := ((hInner _ hYields).2 .interpolate sampleRamp rfl rfl).2
  refine ⟨hSettled, hHandsDown, hYields, hRamp, (hRamp.visits _).mpr (.inl ⟨?_, rfl⟩)⟩
  exact List.mem_cons_of_mem _ (List.mem_singleton_self _)

end Registry

end PointStyle
