import PointStyle.Proofs.Expression.RoundTrip
import PointStyle.Proofs.Operator.Visits

/-! What an expression refers to, in order. The references of an expression are found by going
through it with hints, each call in the order of its operator; nothing is lowered on the way. A
lowering that succeeds has recorded just these. -/
namespace PointStyle

open Lowering Glsl

namespace Vocabulary

mutual

/-- The references of an expression under a hint. A string counts unless it is lowered as a
colour. -/
def references (words : Vocabulary) : Expression → Option TypeSet → List Event
  | .number _ => fun _ => []
  | .bool _ => fun _ => []
  | .string s => fun hint => if Expression.expects hint .string then [.literalCode s] else []
  | .numberArray _ => fun _ => []
  | .call name args => fun hint =>
    match words.word? name with
    | some b =>
      b.named args ++
        (b.visits (words.arguments args) hint (words.referencesAll args)).flatMap fun visit =>
          visit.1 visit.2
    | none => []

def referencesAll (words : Vocabulary) : List Expression → List (Option TypeSet → List Event)
  | [] => []
  | e :: rest => words.references e :: words.referencesAll rest

end

variable (words : Vocabulary)

theorem referencesAll_eq_map (args : List Expression) :
    words.referencesAll args = args.map words.references := by
  induction args with
  | nil => rw [referencesAll, List.map_nil]
  | cons e rest ih => rw [referencesAll, ih, List.map_cons]

/-- The references of a call are what it names itself, and those of its arguments in the order of
its visits. -/
theorem references_call {name : String} {b : Builtin} (h : words.word? name = some b)
    (args : List Expression) (hint : Option TypeSet) :
    words.references (.call name args) hint =
      b.named args ++ (b.visits (words.arguments args) hint args).flatMap fun visit =>
        words.references visit.1 visit.2 := by
  simp only [references, h, referencesAll_eq_map, Builtin.visits_map, List.flatMap_map, Prod.map,
    id]

/-- A string that is lowered is a reference, or it is a colour and nothing is recorded for it. -/
theorem events_stringScript {s : String} {hint : Option TypeSet} {phrase : Phrase}
    (h : (stringScript s hint).outcome = .ok phrase) :
    (stringScript s hint).events =
      if Expression.expects hint .string then [.literalCode s] else [] := by
  unfold stringScript at h ⊢
  split
  · rfl
  · rename_i hString
    rw [if_neg hString] at h
    split
    · rename_i hColour
      rw [if_pos hColour] at h
      obtain ⟨colour, hParse, _, hEvents⟩ := Script.bind_outcome_ok h
      rw [hEvents]
      rfl
    · rfl

/-- A lowering that succeeds records what the expression refers to. -/
theorem events_alike (e : Expression) {hint : Option TypeSet} {phrase : Phrase}
    (h : (words.script e hint).outcome = .ok phrase) :
    Alike (words.script e hint).events (words.references e hint) := by
  induction e generalizing hint phrase with
  | number _ => exact .refl _
  | bool _ => exact .refl _
  | string s =>
      have hEvents := events_stringScript h
      simp only [script, references, hEvents]
      exact .refl _
  | numberArray _ => exact .refl _
  | call name args ih =>
      obtain ⟨b, plan, text, hWord, hPlan, hOutcome, hEvents⟩ := words.script_call_ok h
      have hVisits := Builtin.plan_visits hPlan
      obtain ⟨_, hOperands, _, hPlanEvents⟩ := Plan.script_outcome_ok hOutcome
      have hOk := (Plan.script_ok hOutcome).2
      have hNodes := words.visits_nodes b args hint
      have hArgs : Alike
          ((b.visits (Plan.arguments (words.nodes args)) hint (words.nodes args)).flatMap
            Node.recorded)
          ((b.visits (words.arguments args) hint args).flatMap fun visit =>
            words.references visit.1 visit.2) := by
        rw [hNodes, List.flatMap_map]
        apply Alike.flatMap
        intro visit hVisit
        have hOperand : (words.node visit.1, visit.2) ∈ plan.operands := by
          apply hVisits.subset
          rw [hNodes]
          exact List.mem_map_of_mem hVisit
        have hArg : visit.1 ∈ args := by
          have hNode := (Builtin.plan_accounts hPlan).only _ hOperand
          rw [← words.map_source_nodes args, ← words.registry.source_term visit.1]
          exact List.mem_map_of_mem hNode
        exact ih visit.1 hArg (hOk _ hOperand).1
      obtain ⟨_, hVisited⟩ := hVisits.alike.exists_ok hOperands
      have hPlanned := hVisits.alike.events
      rw [Node.visitAll_events hVisited] at hPlanned
      rw [hEvents, words.references_call hWord, hPlanEvents, hVisits.events, map_source_nodes]
      exact (Alike.trace text _).trans ((Alike.refl _).append (hPlanned.trans hArgs))

end Vocabulary

namespace Scope

/-- A list followed by the names of another that it does not have, in order and without repeats. -/
def appendUnseen (names new : List String) : List String :=
  names ++ (new.filter (· ∉ names)).eraseDups

end Scope

/-- What lowering records is a traversal. An expression that is lowered leaves behind the old lists,
followed by what is new among its references in the order of the traversal, and the attributes and
variables among these are those of all its parts. -/
theorem Registry.records_traversal {e : Expression} {hint : Option TypeSet} {state final : State}
    {text : String} (h : Registry.builtin.lower e hint state = .ok text final) :
    let references := Vocabulary.standard.references e hint
    final.scope =
      { state.scope with
        attributes := Scope.appendUnseen state.scope.attributes
          (references.filterMap Event.attribute?)
        variableNames := Scope.appendUnseen state.scope.variableNames
          (references.filterMap Event.variableName?) } ∧
      final.literals.strings = Scope.appendUnseen state.literals.strings
        (references.filterMap Event.literal?) ∧
      ∀ name,
        (name ∈ references.filterMap Event.attribute? ↔ .call "get" [.string name] ∈ e.parts) ∧
        (name ∈ references.filterMap Event.variableName? ↔
          .call "var" [.string name] ∈ e.parts) := by
  intro references
  obtain ⟨phrase, hPhrase, rfl, _⟩ := Vocabulary.standard.lower_eq_ok h
  have hAlike := Vocabulary.standard.events_alike e hPhrase
  have hRecords := (Vocabulary.node_isSound e hint phrase hPhrase).records
  rw [show (Vocabulary.standard.node e).term.source = e from Registry.source_term _ e] at hRecords
  obtain ⟨log, hFinal⟩ := hAlike state
  rw [hFinal]
  refine ⟨?_, ?_, fun name => ⟨?_, ?_⟩⟩
  · simp only [Scope.appendUnseen, ← Scope.mentionAll_eq_append_eraseDups,
      ← State.attributes_recordAll, ← State.variableNames_recordAll]
    rw [← State.stage_recordAll state references, ← State.functions_recordAll state references]
  · rw [Scope.appendUnseen, ← Scope.mentionAll_eq_append_eraseDups]
    exact State.strings_recordAll state references
  · rw [Event.mem_filterMap_attribute?, ← (hAlike.mem_iff name).1]
    exact hRecords _ _ rfl
  · rw [Event.mem_filterMap_variableName?, ← (hAlike.mem_iff name).2]
    exact hRecords _ _ rfl

/-- A case whose condition compares a string, whose output is an interpolation, and whose fallback
is a match. -/
def Expression.sampleNest : Expression :=
  .call "case" [
    .call "==" [.call "get" [.string "kind"], .string "road"],
    .call "interpolate" [.call "linear" [], .call "var" [.string "t"],
      .number 0, .call "get" [.string "low"], .number 1, .call "get" [.string "high"]],
    .call "match" [.call "get" [.string "class"], .string "x", .number 1,
      .string "y", .call "get" [.string "size"], .number 0]]

/-- The fallback of the case is visited first, and the pairs of the match in it backwards. -/
theorem Registry.records_traversal_sampleNest :
    ∃ text final,
      Registry.builtin.lower .sampleNest (some .number) (State.fresh .vertex) = .ok text final ∧
      final.scope.attributes = ["class", "size", "kind", "low", "high"] ∧
      final.scope.variableNames = ["t"] ∧ final.literals.strings = ["y", "x", "road"] := by
  have hLower : ∃ text final,
      Registry.builtin.lower .sampleNest (some .number) (State.fresh .vertex) = .ok text final :=
    ⟨_, _, rfl⟩
  obtain ⟨text, final, hLower⟩ := hLower
  obtain ⟨hScope, hStrings, _⟩ := records_traversal hLower
  refine ⟨text, final, hLower, ?_, ?_, ?_⟩
  · rw [hScope]
    decide
  · rw [hScope]
    decide
  · rw [hStrings]
    decide

end PointStyle
