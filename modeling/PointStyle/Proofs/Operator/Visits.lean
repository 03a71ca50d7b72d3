import PointStyle.Proofs.Lowering.Parts

/-! The order of the arguments. Calls go through their arguments from left to right, with three
exceptions: a match and a case come to their pairs last, from the last pair to the first, and an
interpolation leaves out its kind. Lowering a stop again for the next segment records nothing, so
what a plan records is what this order says. -/
namespace PointStyle

open Lowering Glsl

namespace Builtin

variable {α β : Type}

/-- Pairs one after the other, the first of each without a hint and the second with that for
outputs. -/
def pairVisits (output : Option TypeSet) (pairs : List (α × α)) : List (α × Option TypeSet) :=
  pairs.flatMap fun pair => [(pair.1, none), (pair.2, output)]

/-- The order in which a call visits items, one for each of its arguments, with the hints. -/
def visits (b : Builtin) (args : List Argument) (hint : Option TypeSet) (items : List α) :
    List (α × Option TypeSet) :=
  let output := b.outputHint args hint
  match b with
  -- The name of an input is read as it is written.
  | .get | .var => []
  | .equal | .notEqual => items.map (·, sharedHint args)
  | .not => items.map (·, none)
  | .all | .any => items.map (·, some .boolean)
  | .interpolate =>
    match items with
    | _ :: input :: stops => (input, none) :: pairVisits output (Operator.pairs stops)
    | _ => []
  | .matching =>
    match items, items.getLast? with
    | input :: rest, some fallback =>
      (input, none) :: (fallback, output) ::
        pairVisits output (Operator.pairs rest.dropLast).reverse
    | _, _ => []
  | .casewise =>
    match items.getLast? with
    | some fallback =>
      (fallback, output) :: pairVisits output (Operator.pairs items.dropLast).reverse
    | none => []
  | _ => items.map (·, some .number)

/-- The input that a call names. -/
def named : Builtin → List Expression → List Event
  | .get, [.string name] => [.attributeRef name]
  | .var, [.string name] => [.variableRef name]
  | _, _ => []

/-- Changing all elements of pairs changes what is visited in the same way. -/
theorem pairVisits_map (f : α → β) (output : Option TypeSet) (pairs : List (α × α)) :
    pairVisits output (pairs.map fun pair => (f pair.1, f pair.2)) =
      (pairVisits output pairs).map (Prod.map f id) := by
  simp [pairVisits, List.flatMap_map, List.map_flatMap]

/-- The order does not depend on what the items are. -/
theorem visits_map (b : Builtin) (args : List Argument) (hint : Option TypeSet) (f : α → β)
    (items : List α) :
    b.visits args hint (items.map f) = (b.visits args hint items).map (Prod.map f id) := by
  have hAll : ∀ hint : Option TypeSet,
      (items.map f).map (·, hint) = (items.map (·, hint)).map (Prod.map f id) := by simp
  cases b with
  | get | var => rfl
  | interpolate =>
      match items with
      | [] => rfl
      | [_] => rfl
      | _ :: input :: stops =>
          simp only [visits, List.map_cons, Operator.pairs_map, pairVisits_map, Prod.map, id]
  | matching =>
      cases items with
      | nil => rfl
      | cons input rest =>
          simp only [visits, List.map_cons]
          rw [← List.map_cons, List.getLast?_map]
          cases (input :: rest).getLast? with
          | none => rfl
          | some fallback =>
              simp only [Option.map_some, ← List.map_dropLast, Operator.pairs_map,
                ← List.map_reverse, pairVisits_map, List.map_cons, Prod.map, id]
  | casewise =>
      simp only [visits, List.getLast?_map]
      cases items.getLast? with
      | none => rfl
      | some fallback =>
          simp only [Option.map_some, ← List.map_dropLast, Operator.pairs_map, ← List.map_reverse,
            pairVisits_map, List.map_cons, Prod.map, id]
  | _ => exact hAll _

end Builtin

namespace Lowering

/-- Recording either leaves the same names and the same codes behind. -/
def Alike (first second : List Event) : Prop :=
  ∀ state : State, ∃ log, state.recordAll first = { state.recordAll second with log := log }

namespace State

/-- What is recorded does not depend on the log. -/
theorem record_log (state : State) (log : Log) (event : Event) :
    ∃ next, ({ state with log := log } : State).record event =
      { state.record event with log := next } := by
  cases event <;> exact ⟨_, rfl⟩

/-- The log has no part in what is recorded. -/
theorem recordAll_log (state : State) (log : Log) (events : List Event) :
    ∃ final, ({ state with log := log } : State).recordAll events =
      { state.recordAll events with log := final } := by
  induction events generalizing state log with
  | nil => exact ⟨log, rfl⟩
  | cons event rest ih =>
      obtain ⟨next, hNext⟩ := state.record_log log event
      rw [recordAll_cons, hNext]
      exact ih (state.record event) next

end State

namespace Alike

variable {first second third fourth seen again : List Event}

theorem refl (events : List Event) : Alike events events :=
  fun state => ⟨(state.recordAll events).log, rfl⟩

theorem trans (h : Alike first second) (h' : Alike second third) : Alike first third := by
  intro state
  obtain ⟨log, hFirst⟩ := h state
  obtain ⟨final, hSecond⟩ := h' state
  exact ⟨log, by rw [hFirst, hSecond]⟩

/-- Lists of events that are alike stay so when they are joined. -/
theorem append (h : Alike first second) (h' : Alike third fourth) :
    Alike (first ++ third) (second ++ fourth) := by
  intro state
  obtain ⟨log, hFirst⟩ := h state
  obtain ⟨middle, hLog⟩ := (state.recordAll second).recordAll_log log third
  obtain ⟨final, hSecond⟩ := h' (state.recordAll second)
  exact ⟨middle, by rw [State.recordAll_append, hFirst, hLog, hSecond, State.recordAll_append]⟩

/-- A detail in the log is no record. -/
theorem trace (text : String) (events : List Event) : Alike (.trace text :: events) events :=
  fun state => state.recordAll_log _ events

/-- What has been recorded before is not recorded again. -/
theorem of_subset (h : again ⊆ seen) : Alike (seen ++ again) seen := by
  intro state
  rw [State.recordAll_append]
  exact State.recordAll_of_knows fun event hEvent => State.knows_recordAll state (h hEvent)

theorem flatMap {α : Type} {f g : α → List Event} {items : List α}
    (h : ∀ item ∈ items, Alike (f item) (g item)) : Alike (items.flatMap f) (items.flatMap g) := by
  induction items with
  | nil => exact refl []
  | cons item rest ih =>
      obtain ⟨hItem, hRest⟩ := List.forall_mem_cons.mp h
      simp only [List.flatMap_cons]
      exact hItem.append (ih hRest)

/-- Events that are alike leave the same state behind, but for the log. -/
theorem exists_log (h : Alike first second) (state : State) :
    ∃ log, state.recordAll second = { state.recordAll first with log := log } := by
  obtain ⟨log, hLog⟩ := h state
  exact ⟨(state.recordAll second).log, by rw [hLog]⟩

/-- The same names are listed. -/
theorem mem_iff (h : Alike first second) (name : String) :
    (.attributeRef name ∈ first ↔ .attributeRef name ∈ second) ∧
      (.variableRef name ∈ first ↔ .variableRef name ∈ second) := by
  obtain ⟨log, hState⟩ := h (State.fresh .vertex)
  have hAttributes := congrArg (name ∈ ·.scope.attributes) hState
  have hVariables := congrArg (name ∈ ·.scope.variableNames) hState
  simp only [State.attributes_recordAll, State.variableNames_recordAll, Scope.mem_mentionAll,
    Event.mem_filterMap_attribute?, Event.mem_filterMap_variableName?, State.fresh, Scope.empty,
    List.not_mem_nil, false_or, eq_iff_iff] at hAttributes hVariables
  exact ⟨hAttributes, hVariables⟩

end Alike

/-- Two scripts leave the same behind, the log apart, and fail with the same error. -/
structure Script.EndsAlike {α β : Type} (first : Script α) (second : Script β) : Prop where
  events : Alike first.events second.events
  fails : ∀ error, first.outcome = .error error ↔ second.outcome = .error error

namespace Script.EndsAlike

variable {α β γ : Type} {first : Script α} {second : Script β} {third : Script γ}

theorem refl (script : Script α) : script.EndsAlike script :=
  ⟨.refl _, fun _ => Iff.rfl⟩

theorem trans (h : first.EndsAlike second) (h' : second.EndsAlike third) :
    first.EndsAlike third :=
  ⟨h.events.trans h'.events, fun error => (h.fails error).trans (h'.fails error)⟩

/-- Of two scripts that end alike, the second succeeds if the first does. -/
theorem exists_ok (h : first.EndsAlike second) {a : α} (hOk : first.outcome = .ok a) :
    ∃ b, second.outcome = .ok b := by
  cases hOutcome : second.outcome with
  | ok b => exact ⟨b, rfl⟩
  | error error =>
      have hError := (h.fails error).mpr hOutcome
      rw [hOk] at hError
      cases hError

/-- A script ends like itself with its result changed. -/
theorem map (script : Script α) (f : α → β) :
    (⟨script.events, script.outcome.map f⟩ : Script β).EndsAlike script := by
  refine ⟨.refl _, fun error => ?_⟩
  cases script.outcome <;> simp [Except.map]

theorem trace (text : String) (script : Script α) :
    (⟨.trace text :: script.events, script.outcome⟩ : Script α).EndsAlike script :=
  ⟨.trace text _, fun _ => Iff.rfl⟩

variable {δ : Type}

/-- Where one script succeeds the other does, and from one state they come to the same. -/
theorem finish_of_ok (h : first.EndsAlike second) {a : α} (hOk : first.outcome = .ok a)
    (state : State) (render : β → δ) :
    ∃ b log, second.finish render (state.recordAll second.events) =
      .ok b { state.recordAll first.events with log := log } := by
  obtain ⟨b, hSecond⟩ := h.exists_ok hOk
  obtain ⟨log, hLog⟩ := h.events.exists_log state
  rw [finish, hSecond, hLog]
  exact ⟨_, log, rfl⟩

/-- Of two scripts that end alike, the second fails with the error of the first and leaves the same
state, but for the log. -/
theorem finish_of_error (h : first.EndsAlike second) {error : ExpressionError}
    (hError : first.outcome = .error error) (state : State) (render : β → δ) :
    ∃ log, second.finish render (state.recordAll second.events) =
      .error error { state.recordAll first.events with log := log } := by
  obtain ⟨log, hLog⟩ := h.events.exists_log state
  rw [finish, (h.fails error).mp hError, hLog]
  exact ⟨log, rfl⟩

end Script.EndsAlike

end Lowering

namespace Node

/-- What is recorded for an operand. -/
def recorded (operand : Node × Option TypeSet) : List Event :=
  (operand.1.script operand.2).events

/-- Visits that all succeed record what each of them records. -/
theorem visitAll_events {operands : List (Node × Option TypeSet)} {phrases : List Phrase}
    (h : (visitAll operands).outcome = .ok phrases) :
    (visitAll operands).events = operands.flatMap recorded := by
  induction operands generalizing phrases with
  | nil => rfl
  | cons operand rest ih =>
      obtain ⟨node, hint⟩ := operand
      obtain ⟨_, _, _, _, hOthers, hEvents⟩ := visitAll_cons_ok h
      rw [hEvents, ih hOthers, List.flatMap_cons]
      rfl

/-- After a visit that fails there are no others. -/
theorem visitAll_append_of_error {first : List (Node × Option TypeSet)} {error : ExpressionError}
    (h : (visitAll first).outcome = .error error) (second : List (Node × Option TypeSet)) :
    visitAll (first ++ second) = ⟨(visitAll first).events, .error error⟩ := by
  rw [visitAll_append, Script.bind_eq_of_error h]

/-- After visits that succeed come the others. -/
theorem visitAll_append_of_ok {first : List (Node × Option TypeSet)} {phrases : List Phrase}
    (h : (visitAll first).outcome = .ok phrases) (second : List (Node × Option TypeSet)) :
    visitAll (first ++ second) =
      ⟨(visitAll first).events ++ (visitAll second).events,
        (visitAll second).outcome.map (phrases ++ ·)⟩ := by
  rw [visitAll_append, Script.bind_eq_of_ok h, Script.bind_pure_eq]

/-- An operand that has been lowered before does not fail now, and nothing is left to record for
it. -/
theorem endsAlike_of_mem {seen : List (Node × Option TypeSet)} {operand : Node × Option TypeSet}
    (h : operand ∈ seen) (rest : List (Node × Option TypeSet)) :
    (visitAll (seen ++ operand :: rest)).EndsAlike (visitAll (seen ++ rest)) := by
  cases hSeen : (visitAll seen).outcome with
  | error error =>
      have hSame : visitAll (seen ++ operand :: rest) = visitAll (seen ++ rest) := by
        rw [visitAll_append_of_error hSeen, visitAll_append_of_error hSeen]
      rw [hSame]
      exact .refl _
  | ok phrases =>
      obtain ⟨hPhrase, hSubset⟩ := (visitAll_ok hSeen).2 operand h
      have hAgain : visitAll (operand :: rest) =
          ⟨(operand.1.script operand.2).events ++ (visitAll rest).events,
            (visitAll rest).outcome.map (operand.1.phrase operand.2 :: ·)⟩ := by
        rw [visitAll, Script.bind_eq_of_ok hPhrase, Script.bind_pure_eq]
      constructor
      · rw [visitAll_append_of_ok hSeen, visitAll_append_of_ok hSeen, hAgain, ← List.append_assoc]
        exact (Alike.of_subset hSubset).append (.refl _)
      · intro error
        rw [visitAll_append_of_ok hSeen, visitAll_append_of_ok hSeen, hAgain]
        cases (visitAll rest).outcome with
        | error other => exact Iff.rfl
        | ok others => simp [Except.map]

end Node

namespace Plan

variable {b : Builtin} {args : List Node} {hint : Option TypeSet} {plan : Plan}

/-- The plan names the input of the call, lowers all that the call visits, and leaves behind what
the visits do. -/
structure Visits (plan : Plan) (b : Builtin) (args : List Node) (hint : Option TypeSet) : Prop where
  events : plan.events = b.named (args.map Node.source)
  subset : b.visits (arguments args) hint args ⊆ plan.operands
  alike : (Node.visitAll plan.operands).EndsAlike
    (Node.visitAll (b.visits (arguments args) hint args))

/-- A plan goes through its visits if it lowers them and records what the call names. -/
theorem Visits.of_eq (hEvents : plan.events = b.named (args.map Node.source))
    (hOperands : plan.operands = b.visits (arguments args) hint args) :
    plan.Visits b args hint := by
  refine ⟨hEvents, ?_, ?_⟩
  · rw [hOperands]
    exact List.Subset.refl _
  · rw [hOperands]
    exact .refl _

/-- A choice lowers its pairs from the last to the first. -/
theorem choiceOperands_eq (output : TypeSet) (branches : List (Node × Node)) :
    choiceOperands output branches = Builtin.pairVisits (some output) branches.reverse := by
  induction branches with
  | nil => rfl
  | cons branch rest ih =>
      rw [choiceOperands, ih, Builtin.pairVisits, Builtin.pairVisits, List.reverse_cons,
        List.flatMap_append]
      rfl

/-- The start of a segment has been lowered as the end of the one before it. -/
theorem endsAlike_ramp (output : TypeSet) {seen : List (Node × Option TypeSet)} {start : Node}
    (hStart : (start, none) ∈ seen) (stops : List (Node × Node)) :
    (Node.visitAll (seen ++ rampOperands output start stops)).EndsAlike
      (Node.visitAll (seen ++ Builtin.pairVisits (some output) stops)) := by
  induction stops generalizing seen start with
  | nil => exact .refl _
  | cons pair rest ih =>
      obtain ⟨stop, value⟩ := pair
      have hStop : (stop, none) ∈ seen ++ [(stop, none), (value, some output)] := by simp
      have hRest := ih hStop
      rw [List.append_assoc, List.append_assoc] at hRest
      exact (Node.endsAlike_of_mem hStart _).trans hRest

/-- An interpolation goes through its visits, apart from stops that it comes to again. -/
theorem ofInterpolation_visits (h : ofInterpolation args hint = .ok plan) :
    plan.Visits .interpolate args hint := by
  obtain ⟨kind, input, stops, power, output, start, first, stop, value, rest, rfl, _, _, hOutput,
    hPairs, rfl⟩ := ofInterpolation_ok h
  have hVisits : Builtin.interpolate.visits (arguments (kind :: input :: stops)) hint
      (kind :: input :: stops) =
      (input, none) :: (start, none) :: (first, some output) :: (stop, none) ::
        (value, some output) :: Builtin.pairVisits (some output) rest := by
    simp only [Builtin.visits]
    rw [outputHint_of_outputTypes hOutput, hPairs]
    rfl
  refine ⟨rfl, ?_, ?_⟩
  · rw [hVisits]
    intro visit hVisit
    simp only [List.mem_cons] at hVisit ⊢
    refine hVisit.imp_right (Or.imp_right (Or.imp_right (Or.imp_right (Or.imp_right ?_))))
    intro hRest
    obtain ⟨pair, hPair, hVisit⟩ := List.mem_flatMap.mp hRest
    obtain ⟨hStop, hValue⟩ := mem_rampOperands output stop hPair
    simp only [List.mem_cons, List.not_mem_nil, or_false] at hVisit
    rcases hVisit with rfl | rfl
    · exact hStop
    · exact hValue
  · rw [hVisits]
    have hSeen : (stop, none) ∈ [(input, none), (start, none), (first, some output),
        (stop, none), (value, some output)] := by simp
    exact endsAlike_ramp output hSeen rest

theorem ofMatch_visits (h : ofMatch args hint = .ok plan) : plan.Visits .matching args hint := by
  obtain ⟨input, rest, fallback, output, rfl, _, hLast, hOutput, rfl⟩ := ofMatch_ok h
  apply Visits.of_eq rfl
  simp only [Builtin.visits]
  rw [outputHint_of_outputTypes hOutput, hLast, choiceOperands_eq]

theorem ofCase_visits (h : ofCase args hint = .ok plan) : plan.Visits .casewise args hint := by
  obtain ⟨fallback, output, _, hLast, hOutput, rfl⟩ := ofCase_ok h
  apply Visits.of_eq rfl
  simp only [Builtin.visits]
  rw [outputHint_of_outputTypes hOutput, hLast, choiceOperands_eq]

theorem ofNumbers_visits {build : List Phrase → Phrase} (h : ofNumbers args build = .ok plan)
    (hNamed : b.named (args.map Node.source) = [])
    (hVisits : b.visits (arguments args) hint args = args.map (·, some .number)) :
    plan.Visits b args hint := by
  obtain ⟨_, rfl⟩ := ofNumbers_ok h
  exact .of_eq hNamed.symm hVisits.symm

theorem ofView_visits {uniform : String} (h : ofView uniform args = .ok plan)
    (hNamed : b.named [] = []) (hVisits : b.visits [] hint ([] : List Node) = []) :
    plan.Visits b args hint := by
  obtain ⟨rfl, rfl⟩ := ofView_ok h
  exact .of_eq hNamed.symm hVisits.symm

theorem ofBooleanChain_visits {operator : BinaryOperator}
    (h : ofBooleanChain operator args = .ok plan) (hNamed : b.named (args.map Node.source) = [])
    (hVisits : b.visits (arguments args) hint args = args.map (·, some .boolean)) :
    plan.Visits b args hint := by
  obtain ⟨_, _, rfl⟩ := ofBooleanChain_ok h
  exact .of_eq hNamed.symm hVisits.symm

theorem ofEquality_visits {operator : BinaryOperator} (h : ofEquality operator args = .ok plan)
    (hNamed : b.named (args.map Node.source) = [])
    (hVisits : b.visits (arguments args) hint args =
      args.map (·, Builtin.sharedHint (arguments args))) :
    plan.Visits b args hint := by
  obtain ⟨left, right, shared, rfl, hShared, _, rfl⟩ := ofEquality_ok h
  rw [sharedHint_arguments hShared] at hVisits
  exact .of_eq hNamed.symm hVisits.symm

theorem ofNegation_visits (h : ofNegation args = .ok plan) : plan.Visits .not args hint := by
  obtain ⟨arg, rfl, _, rfl⟩ := ofNegation_ok h
  exact .of_eq rfl rfl

/-- A named value has no visits. -/
theorem ofName_visits {event : String → Event} {atom : String → Atom}
    (h : ofName event atom args = .ok plan)
    (hNamed : ∀ name, b.named [.string name] = [event name])
    (hVisits : b.visits (arguments args) hint args = []) : plan.Visits b args hint := by
  obtain ⟨arg, name, rfl, hSource, rfl⟩ := ofName_ok h
  refine .of_eq ?_ hVisits.symm
  rw [List.map_singleton, Node.source, hSource, hNamed]

end Plan

/-- Every plan visits the arguments in the order of its operator. -/
theorem Builtin.plan_visits {b : Builtin} {args : List Node} {hint : Option TypeSet} {plan : Plan}
    (h : b.plan args hint = .ok plan) : plan.Visits b args hint := by
  cases b with
  | get | var => exact Plan.ofName_visits h (fun _ => rfl) rfl
  | time | zoom | resolution => exact Plan.ofView_visits h rfl rfl
  | multiply | add => exact Plan.ofNumbers_visits (Plan.ofNumericChain_ok h).2 rfl rfl
  | divide | subtract | clamp | modulo | power | abs | floor | round | ceil | sin | cos | greater
  | greaterOrEqual | less | lessOrEqual | between =>
      exact Plan.ofNumbers_visits (Plan.ofCount_ok h).2 rfl rfl
  | atan | array | colour => exact Plan.ofNumbers_visits (Plan.ofRange_ok h).2.2 rfl rfl
  | equal | notEqual => exact Plan.ofEquality_visits h rfl rfl
  | not => exact Plan.ofNegation_visits h
  | all | any => exact Plan.ofBooleanChain_visits h rfl rfl
  | interpolate => exact Plan.ofInterpolation_visits h
  | matching => exact Plan.ofMatch_visits h
  | casewise => exact Plan.ofCase_visits h

/-- The nodes of a call are visited as its arguments are. -/
theorem Vocabulary.visits_nodes (words : Vocabulary) (b : Builtin) (args : List Expression)
    (hint : Option TypeSet) :
    b.visits (Plan.arguments (words.nodes args)) hint (words.nodes args) =
      (b.visits (words.arguments args) hint args).map (Prod.map words.node id) := by
  rw [arguments_nodes, nodes_eq_map, Builtin.visits_map]

end PointStyle
