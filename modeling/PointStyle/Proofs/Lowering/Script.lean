import PointStyle.Lowering.Basic
import PointStyle.Proofs.Except
import PointStyle.Proofs.FirstSeen

/-! Scripts: what a lowering records and how it ends, told apart from the state that it runs in.
A lowering follows a script when, whatever the state, it records exactly the events of the script
in their order and ends as the script says. Values are rendered with codes of a table that may
have seen more than the lowering has; it gives the strings of the lowering the same codes. -/
namespace PointStyle

namespace Lowering

/-- One thing that a lowering records. -/
inductive Event where
  | attributeRef (name : String)
  | variableRef (name : String)
  | literalCode (s : String)
  | trace (text : String)
deriving DecidableEq, Repr

namespace Event

def attribute? : Event → Option String
  | .attributeRef name => some name
  | _ => none

def variableName? : Event → Option String
  | .variableRef name => some name
  | _ => none

/-- The string that an event asks a code for. -/
def literal? : Event → Option String
  | .literalCode s => some s
  | _ => none

theorem mem_filterMap_attribute? {name : String} {events : List Event} :
    name ∈ events.filterMap attribute? ↔ .attributeRef name ∈ events := by
  refine List.mem_filterMap.trans ⟨fun ⟨event, hEvent, hName⟩ => ?_, fun hEvent => ⟨_, hEvent, rfl⟩⟩
  cases event with
  | attributeRef _ => exact Option.some.inj hName ▸ hEvent
  | variableRef _ | literalCode _ | trace _ => cases hName

theorem mem_filterMap_variableName? {name : String} {events : List Event} :
    name ∈ events.filterMap variableName? ↔ .variableRef name ∈ events := by
  refine List.mem_filterMap.trans ⟨fun ⟨event, hEvent, hName⟩ => ?_, fun hEvent => ⟨_, hEvent, rfl⟩⟩
  cases event with
  | variableRef _ => exact Option.some.inj hName ▸ hEvent
  | attributeRef _ | literalCode _ | trace _ => cases hName

theorem mem_filterMap_literal? {s : String} {events : List Event} :
    s ∈ events.filterMap literal? ↔ .literalCode s ∈ events := by
  refine List.mem_filterMap.trans ⟨fun ⟨event, hEvent, hName⟩ => ?_, fun hEvent => ⟨_, hEvent, rfl⟩⟩
  cases event with
  | literalCode _ => exact Option.some.inj hName ▸ hEvent
  | attributeRef _ | variableRef _ | trace _ => cases hName

end Event

namespace State

def record (state : State) : Event → State
  | .attributeRef name => { state with scope := state.scope.addAttribute name }
  | .variableRef name => { state with scope := state.scope.addVariable name }
  | .literalCode s => { state with literals := (state.literals.codeFor s).2 }
  | .trace text => { state with log := state.log ++ [⟨.trace, text⟩] }

def recordAll (state : State) (events : List Event) : State :=
  events.foldl record state

@[simp] theorem recordAll_cons (state : State) (event : Event) (events : List Event) :
    state.recordAll (event :: events) = (state.record event).recordAll events := rfl

/-- Events are recorded one after the other. -/
@[simp] theorem recordAll_append (state : State) (first second : List Event) :
    state.recordAll (first ++ second) = (state.recordAll first).recordAll second :=
  List.foldl_append

@[simp] theorem stage_recordAll (state : State) (events : List Event) :
    (state.recordAll events).scope.stage = state.scope.stage := by
  induction events generalizing state with
  | nil => rfl
  | cons event rest ih => rw [recordAll_cons, ih]; cases event <;> rfl

/-- No event defines a helper function. -/
@[simp] theorem functions_recordAll (state : State) (events : List Event) :
    (state.recordAll events).scope.functions = state.scope.functions := by
  induction events generalizing state with
  | nil => rfl
  | cons event rest ih => rw [recordAll_cons, ih]; cases event <;> rfl

/-- The attributes of a scope are those that the events refer to, in the order of their first
appearance. -/
theorem attributes_recordAll (state : State) (events : List Event) :
    (state.recordAll events).scope.attributes =
      Scope.mentionAll state.scope.attributes (events.filterMap Event.attribute?) := by
  induction events generalizing state with
  | nil => rfl
  | cons event rest ih => rw [recordAll_cons, ih]; cases event <;> rfl

/-- The variables of a scope are those that the events refer to, in the order of their first
appearance. -/
theorem variableNames_recordAll (state : State) (events : List Event) :
    (state.recordAll events).scope.variableNames =
      Scope.mentionAll state.scope.variableNames (events.filterMap Event.variableName?) := by
  induction events generalizing state with
  | nil => rfl
  | cons event rest ih => rw [recordAll_cons, ih]; cases event <;> rfl

/-- The table goes through the strings in the order in which codes are asked for. -/
theorem strings_recordAll (state : State) (events : List Event) :
    (state.recordAll events).literals.strings =
      Scope.mentionAll state.literals.strings (events.filterMap Event.literal?) := by
  induction events generalizing state with
  | nil => rfl
  | cons event rest ih =>
      rw [recordAll_cons, ih]
      cases event with
      | literalCode s =>
          rw [List.filterMap_cons_some (by rfl : Event.literal? (.literalCode s) = some s),
            Scope.mentionAll_cons, ← LiteralTable.strings_codeFor]
          rfl
      | attributeRef _ => rfl
      | variableRef _ => rfl
      | trace _ => rfl

/-- Strings keep their codes while events are recorded. -/
theorem strings_isPrefix_recordAll (state : State) (events : List Event) :
    state.literals.strings <+: (state.recordAll events).literals.strings := by
  rw [strings_recordAll]
  exact Scope.isPrefix_mentionAll _ _

end State

/-- What a lowering records, and its value or its error. -/
structure Script (α : Type) where
  events : List Event
  outcome : Except ExpressionError α

namespace Script

instance : Monad Script where
  pure a := ⟨[], .ok a⟩
  bind script next :=
    match script.outcome with
    | .ok a => ⟨script.events ++ (next a).events, (next a).outcome⟩
    | .error error => ⟨script.events, .error error⟩

/-- A check, which records nothing. -/
def check {α : Type} (result : Except ExpressionError α) : Script α := ⟨[], result⟩

def recording (events : List Event) : Script Unit := ⟨events, .ok ()⟩

/-- How a lowering ends in a state when its values are shown by `render`. -/
def finish {α β : Type} (script : Script α) (render : α → β) (state : State) :
    EStateM.Result ExpressionError State β :=
  match script.outcome with
  | .ok a => .ok (render a) state
  | .error error => .error error state

variable {α β : Type}

/-- A script that succeeds is continued, and its events come first. -/
theorem bind_eq_of_ok {script : Script α} {a : α} (hOk : script.outcome = .ok a)
    (next : α → Script β) :
    script >>= next = ⟨script.events ++ (next a).events, (next a).outcome⟩ := by
  simp only [bind, hOk]

/-- A script that fails is not continued. -/
theorem bind_eq_of_error {script : Script α} {error : ExpressionError}
    (hError : script.outcome = .error error) (next : α → Script β) :
    script >>= next = ⟨script.events, .error error⟩ := by
  simp only [bind, hError]

/-- A script that goes on succeeds through both of its parts. -/
theorem bind_outcome_ok {script : Script α} {next : α → Script β} {b : β}
    (h : (script >>= next).outcome = .ok b) :
    ∃ a, script.outcome = .ok a ∧ (next a).outcome = .ok b ∧
      (script >>= next).events = script.events ++ (next a).events := by
  cases hOutcome : script.outcome with
  | error error =>
      rw [bind_eq_of_error hOutcome] at h
      cases h
  | ok a =>
      rw [bind_eq_of_ok hOutcome] at h ⊢
      exact ⟨a, rfl, h, rfl⟩

/-- Changing what a script gives leaves its events and its failure. -/
theorem bind_pure_eq (script : Script α) (f : α → β) :
    (do let a ← script; return f a) = ⟨script.events, script.outcome.map f⟩ := by
  cases hOutcome : script.outcome with
  | error error => rw [bind_eq_of_error hOutcome]; rfl
  | ok a =>
      rw [bind_eq_of_ok hOutcome]
      exact congrArg (Script.mk · _) (List.append_nil _)

@[simp] theorem pure_events (a : α) : (pure a : Script α).events = [] := rfl

instance : LawfulMonad Script := LawfulMonad.mk' Script
  (by
    intro α script
    obtain ⟨events, outcome⟩ := script
    cases outcome <;> simp [Functor.map])
  (by intros; rfl)
  (by
    intro α β γ script next last
    obtain ⟨events, outcome⟩ := script
    cases outcome with
    | error error => rfl
    | ok a =>
        simp only [bind]
        cases (next a).outcome <;> simp)

end Script

end Lowering

end PointStyle
