import PointStyle.Proofs.Lowering.Origin
import PointStyle.Proofs.Operator.FirstMatch

/-! Lowering twice. Stops of an interpolation and the sizes of round symbols are lowered more than
once, with anything lowered in between. Whatever has been recorded since, the second text is the
first, and nothing is recorded for it. -/
namespace PointStyle

open Lowering Glsl

namespace Lowering.State

/-- What has been recorded is known wherever the lists and the codes are. -/
theorem Knows.mono {state later : State} {event : Event} (h : state.Knows event)
    (hAttributes : state.scope.attributes ⊆ later.scope.attributes)
    (hVariables : state.scope.variableNames ⊆ later.scope.variableNames)
    (hCodes : ∀ s code, state.literals.code? s = some code → later.literals.code? s = some code) :
    later.Knows event := by
  cases event with
  | attributeRef name => exact hAttributes h
  | variableRef name => exact hVariables h
  | literalCode s =>
      obtain ⟨code, hCode⟩ := Option.isSome_iff_exists.mp ((state.literals.isSome_code? s).mpr h)
      apply (later.literals.isSome_code? s).mp
      rw [hCodes s code hCode]
      rfl
  | trace _ => trivial

end Lowering.State

/-- An atom is written the same once what it stands for is known, however much more is known. -/
theorem Glsl.Atom.IsFrom.text_eq {events : List Event} {a : Atom} (h : a.IsFrom events)
    {state : State} (hKnows : ∀ event ∈ events, state.Knows event) (stage : Stage)
    {codes : LiteralTable}
    (hCodes : ∀ s code, state.literals.code? s = some code → codes.code? s = some code) :
    a.text stage state.literals = a.text stage codes := by
  rcases h with hPlain | ⟨event, hEvent, hAtom⟩
  · cases hPlain <;> rfl
  · have hKnown := hKnows event hEvent
    cases event with
    | attributeRef _ | variableRef _ =>
        cases hAtom
        rfl
    | literalCode s =>
        cases hAtom
        obtain ⟨code, hCode⟩ :=
          Option.isSome_iff_exists.mp ((state.literals.isSome_code? s).mpr hKnown)
        rw [Atom.text, Atom.text, hCode, hCodes s code hCode]
    | trace _ => cases hAtom

/-- Lowering twice changes nothing. An expression that was lowered once is lowered to the same text,
under the same hint, in every state of the same program that has kept the codes and the names of the
first lowering, and that state stays as it is but for its log. -/
theorem Vocabulary.lower_again (words : Vocabulary) {e : Expression} {hint : Option TypeSet}
    {state final later : State} {text : String}
    (hLower : words.registry.lower e hint state = .ok text final)
    (hStage : later.scope.stage = state.scope.stage)
    (hCodes : ∀ s code, final.literals.code? s = some code → later.literals.code? s = some code)
    (hAttributes : final.scope.attributes ⊆ later.scope.attributes)
    (hVariables : final.scope.variableNames ⊆ later.scope.variableNames) :
    ∃ log, words.registry.lower e hint later = .ok text { later with log := log } := by
  obtain ⟨phrase, hPhrase, rfl, rfl⟩ := words.lower_eq_ok hLower
  have hKnows : ∀ event ∈ (words.script e hint).events,
      (state.recordAll (words.script e hint).events).Knows event :=
    fun _ hEvent => State.knows_recordAll state hEvent
  obtain ⟨log, hLater⟩ := words.lower_of_knows hPhrase fun event hEvent =>
    (hKnows event hEvent).mono hAttributes hVariables hCodes
  refine ⟨log, ?_⟩
  have hText : phrase.text later.scope.stage later.literals =
      phrase.text state.scope.stage (state.recordAll (words.script e hint).events).literals := by
    rw [hStage]
    symm
    apply (words.node_isGrounded e hint phrase hPhrase).text_congr
    exact fun a hFrom => hFrom.text_eq hKnows _ hCodes
  rw [hLater, hText, State.stage_recordAll]

/-- A fragment program that has seen more than one expression. -/
def Lowering.State.sampleLater : State :=
  ⟨⟨.fragment, ["size", "kind"], ["k"], [("half", "float half(float x);")]⟩, ⟨["a", "b", "c"]⟩, []⟩

/-- The codes that were given out in the first lowering stay what they are. -/
theorem Vocabulary.lower_again_sampleMatch :
    ∃ final log, Registry.builtin.lower .sampleMatch none (State.fresh .fragment) =
        .ok "(v_kind == 1.0 ? 10.0 : (v_kind == 0.0 ? 20.0 : 30.0))" final ∧
      final.literals.strings = ["a", "b"] ∧
      Registry.builtin.lower .sampleMatch none .sampleLater =
        .ok "(v_kind == 1.0 ? 10.0 : (v_kind == 0.0 ? 20.0 : 30.0))"
          { State.sampleLater with log := log } := by
  have hLower : ∃ text final,
      Registry.builtin.lower .sampleMatch none (State.fresh .fragment) = .ok text final ∧
        text = "(v_kind == 1.0 ? 10.0 : (v_kind == 0.0 ? 20.0 : 30.0))" ∧
        final.literals.strings = ["a", "b"] ∧ final.scope.attributes = ["kind"] ∧
        final.scope.variableNames = [] :=
    ⟨_, _, rfl, by decide +kernel, by decide, by decide, by decide⟩
  obtain ⟨_, final, hLower, rfl, hStrings, hAttributes, hVariables⟩ := hLower
  have hPrefix : final.literals.strings <+: State.sampleLater.literals.strings := by
    rw [hStrings]
    decide
  have hNames : final.scope.attributes ⊆ State.sampleLater.scope.attributes ∧
      final.scope.variableNames ⊆ State.sampleLater.scope.variableNames := by
    rw [hAttributes, hVariables]
    decide
  have hStage : State.sampleLater.scope.stage = (State.fresh .fragment).scope.stage := rfl
  obtain ⟨log, hLater⟩ := lower_again standard hLower hStage
    (fun _ _ hCode => LiteralTable.code?_of_isPrefix hPrefix hCode) hNames.1 hNames.2
  exact ⟨final, log, hLower, hStrings, hLater⟩

end PointStyle
