import PointStyle.Proofs.Lowering.Meaning

/-! Lowering again. A state that has recorded what a lowering would record learns nothing new from
it: its scope and its literal table stay as they are, and the text is the one of the same phrase. -/
namespace PointStyle

open Lowering Glsl

namespace Lowering.State

/-- What the event records is in the state already. -/
def Knows (state : State) : Event → Prop
  | .attributeRef name => name ∈ state.scope.attributes
  | .variableRef name => name ∈ state.scope.variableNames
  | .literalCode s => s ∈ state.literals.strings
  | .trace _ => True

/-- What has been recorded is known from then on. -/
theorem knows_recordAll (state : State) {events : List Event} {event : Event}
    (h : event ∈ events) : (state.recordAll events).Knows event := by
  cases event with
  | attributeRef name =>
      rw [Knows, attributes_recordAll, Scope.mem_mentionAll]
      exact .inr (Event.mem_filterMap_attribute?.mpr h)
  | variableRef name =>
      rw [Knows, variableNames_recordAll, Scope.mem_mentionAll]
      exact .inr (Event.mem_filterMap_variableName?.mpr h)
  | literalCode s =>
      rw [Knows, strings_recordAll, Scope.mem_mentionAll]
      exact .inr (Event.mem_filterMap_literal?.mpr h)
  | trace _ => trivial

/-- Recording what is known already adds to the log only. -/
theorem record_of_knows {state : State} {event : Event} (h : state.Knows event) :
    ∃ log, state.record event = { state with log := log } := by
  refine ⟨(state.record event).log, ?_⟩
  cases event with
  | attributeRef name =>
      have hMention : Scope.mention state.scope.attributes name = _ := if_pos h
      rw [record, Scope.addAttribute, hMention]
  | variableRef name =>
      have hMention : Scope.mention state.scope.variableNames name = _ := if_pos h
      rw [record, Scope.addVariable, hMention]
  | literalCode s =>
      obtain ⟨code, hCode⟩ := Option.isSome_iff_exists.mp ((state.literals.isSome_code? s).mpr h)
      rw [record, LiteralTable.codeFor_of_code? hCode]
  | trace _ => rfl

/-- A state that knows all events is changed by them in its log only. -/
theorem recordAll_of_knows {state : State} {events : List Event}
    (h : ∀ event ∈ events, state.Knows event) :
    ∃ log, state.recordAll events = { state with log := log } := by
  induction events generalizing state with
  | nil => exact ⟨state.log, rfl⟩
  | cons event rest ih =>
      obtain ⟨hEvent, hRest⟩ := List.forall_mem_cons.mp h
      obtain ⟨log, hRecord⟩ := record_of_knows hEvent
      rw [recordAll_cons, hRecord]
      refine ih fun other hOther => ?_
      -- What is known does not depend on the log.
      have hKnown := hRest other hOther
      cases other <;> exact hKnown

end Lowering.State

/-- A lowering that succeeds has recorded its events and gives its phrase in the final state. -/
theorem Vocabulary.lower_eq_ok (words : Vocabulary) {e : Expression} {hint : Option TypeSet}
    {state final : State} {text : String} (h : words.registry.lower e hint state = .ok text final) :
    ∃ phrase, (words.script e hint).outcome = .ok phrase ∧
      final = state.recordAll (words.script e hint).events ∧
      text = phrase.text final.scope.stage final.literals := by
  rw [lower_eq, Script.finish] at h
  cases hOutcome : (words.script e hint).outcome with
  | error error =>
      rw [hOutcome] at h
      cases h
  | ok phrase =>
      rw [hOutcome] at h
      cases h
      exact ⟨phrase, rfl, rfl, by rw [State.stage_recordAll]⟩

/-- A lowering that fails has recorded the events up to its error. -/
theorem Vocabulary.lower_eq_error (words : Vocabulary) {e : Expression} {hint : Option TypeSet}
    {state final : State} {error : ExpressionError}
    (h : words.registry.lower e hint state = .error error final) :
    (words.script e hint).outcome = .error error ∧
      final = state.recordAll (words.script e hint).events := by
  rw [lower_eq, Script.finish] at h
  cases hOutcome : (words.script e hint).outcome with
  | ok phrase =>
      rw [hOutcome] at h
      cases h
  | error other =>
      rw [hOutcome] at h
      cases h
      exact ⟨rfl, rfl⟩

/-- Where all is known that an expression records, it is lowered to the text of its phrase, and the
state stays as it is but for the log. -/
theorem Vocabulary.lower_of_knows (words : Vocabulary) {e : Expression} {hint : Option TypeSet}
    {phrase : Phrase} (hPhrase : (words.script e hint).outcome = .ok phrase) {state : State}
    (hKnows : ∀ event ∈ (words.script e hint).events, state.Knows event) :
    ∃ log, words.registry.lower e hint state =
      .ok (phrase.text state.scope.stage state.literals) { state with log := log } := by
  obtain ⟨log, hRecord⟩ := State.recordAll_of_knows hKnows
  refine ⟨log, ?_⟩
  rw [lower_eq, hRecord, Script.finish, hPhrase]

end PointStyle
