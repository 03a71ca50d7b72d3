import Mathlib.Logic.ExistsUnique
import PointStyle.Proofs.Lowering.Meaning
import PointStyle.Session

/-! Sessions under any sequence of operations. Lowering may stop in the middle of any argument list
and keeps what it has recorded until then, and both programs write to one literal table. Every
operation still only appends: to the lists of its own program, and to the table. -/
namespace PointStyle

open Lowering

namespace Session

/-- What may be asked of a program during a session. -/
inductive Request where
  | lower (words : Vocabulary) (e : Expression) (hint : Option TypeSet)
  | infer (words : Vocabulary) (e : Expression)
  | codeFor (s : String)
  | lookup (s : String)
  | attributeRef (name : String)
  | variableRef (name : String)

inductive Reply where
  | text (result : Except ExpressionError String)
  | types (result : Except ExpressionError TypeSet)
  | code (code : UInt32)
  | known (code : Option UInt32)

/-- Carries out a request for one of the programs. -/
def perform (session : Session) (stage : Stage) : Request → Reply × Session
  | .lower words e hint =>
    let (result, session) := session.run stage (words.registry.lower e hint)
    (.text result, session)
  | .infer words e => (.types (words.registry.infer e), session)
  | .codeFor s =>
    let (code, literals) := session.literals.codeFor s
    (.code code, { session with literals })
  | .lookup s => (.known (session.literals.code? s), session)
  | .attributeRef name =>
    let (result, session) := session.run stage (Lowering.attributeRef name)
    (.text result, session)
  | .variableRef name =>
    let (result, session) := session.run stage (Lowering.variableRef name)
    (.text result, session)

/-- The session after several requests, each for one of the programs. -/
def performAll (session : Session) (requests : List (Stage × Request)) : Session :=
  requests.foldl (fun session request => (session.perform request.1 request.2).2) session

def Request.events : Request → List Event
  | .lower words e hint => (words.script e hint).events
  | .infer _ _ => []
  | .codeFor s => [.literalCode s]
  | .lookup _ => []
  | .attributeRef name => [.attributeRef name]
  | .variableRef name => [.variableRef name]

/-- The strings that a request asks codes for, in order. -/
def Request.seen (request : Request) : List String :=
  request.events.filterMap Event.literal?

/-- The state that a lowering for one of the programs starts in. -/
def state (session : Session) (stage : Stage) : State :=
  ⟨session.scope stage, session.literals, session.log⟩

@[simp] theorem scope_update (session : Session) (stage : Stage) (state : State) :
    (session.update stage state).scope stage = state.scope := by
  cases stage <;> rfl

/-- Moving one program on leaves the other program as it is. -/
theorem scope_update_of_ne (session : Session) {stage other : Stage} (state : State)
    (h : other ≠ stage) : (session.update stage state).scope other = session.scope other := by
  cases stage with
  | vertex =>
      cases other with
      | vertex => exact absurd rfl h
      | fragment => rfl
  | fragment =>
      cases other with
      | vertex => rfl
      | fragment => exact absurd rfl h

/-- What held of both scopes still does if it holds of the one that was updated. -/
theorem forall_scope_update {session : Session} {stage : Stage} {state : State} {P : Scope → Prop}
    (hSession : ∀ other, P (session.scope other)) (hState : P state.scope) (other : Stage) :
    P ((session.update stage state).scope other) := by
  by_cases hOther : other = stage
  · subst hOther
    rw [scope_update]
    exact hState
  · rw [scope_update_of_ne session state hOther]
    exact hSession other

@[simp] theorem literals_update (session : Session) (stage : Stage) (state : State) :
    (session.update stage state).literals = state.literals := by
  cases stage <;> rfl

/-- Putting a program back as it is changes nothing. -/
@[simp] theorem update_state (session : Session) (stage : Stage) :
    session.update stage (session.state stage) = session := by
  cases stage <;> rfl

/-- A lowering is run from the state of its program, and that program is moved on whether it
succeeds or fails. -/
theorem run_eq {α : Type} (session : Session) (stage : Stage) (lowering : Lowering α) :
    session.run stage lowering =
      match lowering (session.state stage) with
      | .ok value state => (.ok value, session.update stage state)
      | .error error state => (.error error, session.update stage state) := rfl

/-- A lowering that follows a script leaves its events, however it ends. -/
theorem run_finish {α β : Type} (session : Session) (stage : Stage) {lowering : Lowering β}
    {script : Script α} {render : α → β} {final : State}
    (h : lowering (session.state stage) = script.finish render final) :
    (session.run stage lowering).2 = session.update stage final := by
  rw [run_eq, h, Script.finish]
  cases script.outcome <;> rfl

/-- All that a request does to a session, whether it succeeds or fails. -/
theorem perform_eq (session : Session) (stage : Stage) (request : Request) :
    (session.perform stage request).2 =
      session.update stage ((session.state stage).recordAll request.events) := by
  cases request with
  | lower words e hint => exact run_finish session stage (words.lower_eq e hint _)
  | infer _ _ => exact (update_state session stage).symm
  | codeFor s => cases stage <;> rfl
  | lookup _ => exact (update_state session stage).symm
  | attributeRef _ => rfl
  | variableRef _ => rfl

/-- One step of a session from one state to the next, for one of the programs. -/
structure Extends (before : Session) (stage : Stage) (after : Session) : Prop where
  attributes : (before.scope stage).attributes <+: (after.scope stage).attributes
  variableNames : (before.scope stage).variableNames <+: (after.scope stage).variableNames
  others : ∀ other, other ≠ stage → after.scope other = before.scope other
  strings : before.literals.strings <+: after.literals.strings
  codes : ∀ s code, before.literals.code? s = some code → after.literals.code? s = some code

/-- A request extends the session for its own program. -/
theorem extends_perform (session : Session) (stage : Stage) (request : Request) :
    session.Extends stage (session.perform stage request).2 := by
  have hStrings := State.strings_isPrefix_recordAll (session.state stage) request.events
  rw [perform_eq]
  refine ⟨?_, ?_, fun other hOther => scope_update_of_ne session _ hOther, ?_,
    fun s code hCode => ?_⟩
  · rw [scope_update, State.attributes_recordAll]
    exact Scope.isPrefix_mentionAll _ _
  · rw [scope_update, State.variableNames_recordAll]
    exact Scope.isPrefix_mentionAll _ _
  · rw [literals_update]
    exact hStrings
  · rw [literals_update]
    exact LiteralTable.code?_of_isPrefix hStrings hCode

/-- What holds of a session that has seen these strings, some of them more than once. -/
structure WellKept (session : Session) (seen : List String) : Prop where
  attributes_nodup : ∀ stage, (session.scope stage).attributes.Nodup
  variableNames_nodup : ∀ stage, (session.scope stage).variableNames.Nodup
  strings_nodup : session.literals.strings.Nodup
  strings_eq : session.literals.strings = seen.eraseDups

theorem wellKept_fresh : fresh.WellKept [] := by
  refine ⟨fun stage => ?_, fun stage => ?_, List.nodup_nil, rfl⟩
  · cases stage <;> exact List.nodup_nil
  · cases stage <;> exact List.nodup_nil

/-- A request keeps the lists free of repetitions and numbers the new strings after the old. -/
theorem wellKept_perform {session : Session} {seen : List String} (h : session.WellKept seen)
    (stage : Stage) (request : Request) :
    (session.perform stage request).2.WellKept (seen ++ request.seen) := by
  rw [perform_eq]
  refine ⟨forall_scope_update (P := fun scope => scope.attributes.Nodup) h.attributes_nodup ?_,
    forall_scope_update (P := fun scope => scope.variableNames.Nodup) h.variableNames_nodup ?_,
    ?_, ?_⟩
  · rw [State.attributes_recordAll]
    exact Scope.nodup_mentionAll _ (h.attributes_nodup stage)
  · rw [State.variableNames_recordAll]
    exact Scope.nodup_mentionAll _ (h.variableNames_nodup stage)
  · rw [literals_update, State.strings_recordAll]
    exact Scope.nodup_mentionAll _ h.strings_nodup
  -- Adding the strings of the request to those seen is going through all of them from the start.
  · rw [literals_update, State.strings_recordAll, ← Scope.mentionAll_nil_left,
      Scope.mentionAll_append, Scope.mentionAll_nil_left, ← h.strings_eq]
    rfl

/-- Any number of requests keep the codes in the order in which strings were first seen. -/
theorem wellKept_performAll {session : Session} {seen : List String} (h : session.WellKept seen)
    (requests : List (Stage × Request)) :
    (session.performAll requests).WellKept (seen ++ requests.flatMap (·.2.seen)) := by
  induction requests generalizing session seen with
  | nil =>
      rw [List.flatMap_nil, List.append_nil]
      exact h
  | cons request rest ih =>
      rw [List.flatMap_cons, ← List.append_assoc]
      exact ih (wellKept_perform h request.1 request.2)

/-- The table numbers the strings seen from zero on in the order of their first appearance, each
with one code and each code with one string. -/
theorem WellKept.numbering {session : Session} {seen : List String} (h : session.WellKept seen)
    (hSize : session.literals.size < UInt32.size) :
    (∀ s, (session.literals.code? s).isSome ↔ s ∈ seen) ∧
      (∀ s code, session.literals.code? s = some code ↔ seen.eraseDups[code.toNat]? = some s) ∧
      ∀ place < session.literals.size,
        ∃! s, session.literals.code? s = some (UInt32.ofNat place) := by
  have hCode := LiteralTable.code?_eq_some_iff h.strings_nodup hSize
  refine ⟨fun s => ?_, fun s code => ?_, fun place hPlace => ?_⟩
  · rw [LiteralTable.isSome_code?, h.strings_eq, List.mem_eraseDups]
  · rw [hCode, h.strings_eq]
  · have hNat : (UInt32.ofNat place).toNat = place :=
      UInt32.toNat_ofNat_of_lt' (Nat.lt_trans hPlace hSize)
    simp only [hCode, hNat]
    have hHere := List.getElem?_eq_getElem
      (show place < session.literals.strings.length from hPlace)
    exact ⟨_, hHere, fun s hs => Option.some.inj (hs.symm.trans hHere)⟩

/-- In every reachable state of a session no list has a repetition and the table numbers the strings
seen in the order of their first appearance. Every further step, failing or not, only appends to the
lists of its program and to the table, and asking for types or for a known code changes nothing. -/
theorem session_invariant (requests : List (Stage × Request)) :
    let session := fresh.performAll requests
    let seen := requests.flatMap (·.2.seen)
    session.WellKept seen ∧
      (session.literals.size < UInt32.size →
        (∀ s, (session.literals.code? s).isSome ↔ s ∈ seen) ∧
          (∀ s code, session.literals.code? s = some code ↔ seen.eraseDups[code.toNat]? = some s) ∧
          ∀ place < session.literals.size,
            ∃! s, session.literals.code? s = some (UInt32.ofNat place)) ∧
      (∀ stage request, session.Extends stage (session.perform stage request).2) ∧
      (∀ stage s, ∃ code, (session.perform stage (.codeFor s)).1 = .code code ∧
        (session.perform stage (.codeFor s)).2.literals.code? s = some code) ∧
      (∀ stage words e, (session.perform stage (.infer words e)).2 = session) ∧
      ∀ stage s, session.perform stage (.lookup s) =
        (.known (session.literals.code? s), session) := by
  intro session seen
  have hKept : session.WellKept seen := wellKept_performAll wellKept_fresh requests
  exact ⟨hKept, hKept.numbering, extends_perform session,
    fun _ s => ⟨_, rfl, LiteralTable.code?_codeFor session.literals s⟩,
    fun _ _ _ => rfl, fun _ _ => rfl⟩

end Session

end PointStyle
