import PointStyle.Proofs.Operator.FirstMatch
import PointStyle.Proofs.Operator.Interpolation
import PointStyle.Proofs.Operator.Rejection
import PointStyle.Proofs.Operator.TypedCalls
import PointStyle.Proofs.Operator.Visits

/-! Handing a type down. A call that chooses lowers its outputs with the type that it has settled on
as their hint, and what decides between them without a hint. That is all that it lowers, in the
order of its visits, and all that its text is made of. -/
namespace PointStyle

open Lowering Glsl

namespace Operator

section Outputs

variable {α : Type}

def Interpolate.outputs (args : List α) : List α :=
  (pairs (args.drop 2)).map (·.2)

def Match.outputs (args : List α) : List α :=
  (pairs (args.drop 1).dropLast).map (·.2) ++ args.getLast?.toList

def Case.outputs (args : List α) : List α :=
  (pairs args.dropLast).map (·.2) ++ args.getLast?.toList

end Outputs

end Operator

namespace Builtin

open Operator

/-- The arguments of a call that its value may come from. -/
def outputs {α : Type} : Builtin → List α → List α
  | .interpolate => Interpolate.outputs
  | .matching => Match.outputs
  | .casewise => Case.outputs
  | _ => fun _ => []

/-- The arguments of a call that decide between its outputs. -/
def tests {α : Type} : Builtin → List α → List α
  | .interpolate => Interpolate.places
  | .matching => Match.compared
  | .casewise => Case.conditions
  | _ => fun _ => []

/-- In pairs of a test and an output, the outputs are visited with the type and the tests without a
hint. -/
theorem mem_pairVisits {α : Type} {output : Option TypeSet} {branches : List (α × α)}
    {visit : α × Option TypeSet} :
    visit ∈ pairVisits output branches ↔
      (visit.1 ∈ branches.map (·.2) ∧ visit.2 = output) ∨
        (visit.1 ∈ branches.map (·.1) ∧ visit.2 = none) := by
  obtain ⟨item, hint⟩ := visit
  simp only [pairVisits, List.mem_flatMap, List.mem_cons, List.not_mem_nil, or_false, List.mem_map,
    Prod.mk.injEq]
  grind

/-- A call that chooses lowers its outputs with the hint for outputs, and what decides between them
without a hint. -/
theorem mem_visits_iff {α : Type} {b : Builtin} (hConditional : b.isConditional)
    (args : List Argument) (hint : Option TypeSet) {items : List α} {visit : α × Option TypeSet} :
    visit ∈ b.visits args hint items ↔
      (visit.1 ∈ b.outputs items ∧ visit.2 = b.outputHint args hint) ∨
        (visit.1 ∈ b.tests items ∧ visit.2 = none) := by
  obtain ⟨item, own⟩ := visit
  cases b with
  | interpolate =>
      rcases items with _ | ⟨kind, _ | ⟨input, stops⟩⟩
      · simp [visits, outputs, tests, Interpolate.outputs, Interpolate.places, pairs]
      · simp [visits, outputs, tests, Interpolate.outputs, Interpolate.places, pairs]
      · simp only [visits, outputs, tests, Interpolate.outputs, Interpolate.places,
          List.mem_cons, mem_pairVisits, Prod.mk.injEq, List.drop_succ_cons, List.drop_zero,
          List.take_succ_cons, List.take_zero, List.cons_append, List.nil_append]
        grind
  | matching =>
      cases items with
      | nil => simp [visits, outputs, tests, Match.outputs, Match.compared, pairs]
      | cons input rest =>
          obtain ⟨fallback, hLast⟩ : ∃ fallback, (input :: rest).getLast? = some fallback :=
            ⟨_, List.getLast?_eq_some_getLast (List.cons_ne_nil _ _)⟩
          simp only [visits, outputs, tests, Match.outputs, Match.compared, hLast,
            List.mem_cons, mem_pairVisits, Prod.mk.injEq, List.drop_succ_cons, List.drop_zero,
            List.take_succ_cons, List.take_zero, List.cons_append, List.nil_append,
            List.mem_append, Option.mem_toList, List.map_reverse, List.mem_reverse]
          grind
  | casewise =>
      cases hLast : items.getLast? with
      | none =>
          rw [List.getLast?_eq_none_iff.mp hLast]
          simp [visits, outputs, tests, Case.outputs, Case.conditions, pairs]
      | some fallback =>
          simp only [visits, outputs, tests, Case.outputs, Case.conditions, hLast,
            List.mem_cons, mem_pairVisits, Prod.mk.injEq, List.mem_append, Option.mem_toList,
            List.map_reverse, List.mem_reverse]
          grind
  | _ => cases hConditional

section Pieces

variable {source fallback input : Expression} {own output : Option TypeSet}
  {branches stops : List (Expression × Expression)} {part : Part}

theorem mem_pairVisits_reverse {visit : Expression × Option TypeSet} :
    visit ∈ pairVisits output branches.reverse ↔ visit ∈ pairVisits output branches := by
  simp [pairVisits]

/-- A choice is made of its tests, its outputs and its fallback. -/
theorem mem_leaves_choiceTree {test : SyntaxTree Part → SyntaxTree Part} :
    part ∈ (choiceTree Part.alone test output fallback branches).leaves ↔
      part = .piece fallback output ∨ ∃ branch ∈ branches,
        part ∈ (test (Part.alone branch.1 none)).leaves ∨ part = .piece branch.2 output := by
  rw [choiceTree]
  induction branches with
  | nil => simp [SyntaxTree.choice, SyntaxTree.leaves]
  | cons branch rest ih =>
      rw [List.map_cons, SyntaxTree.choice, List.foldr_cons, ← SyntaxTree.choice]
      simp only [SyntaxTree.leaves, List.mem_append, ih, List.mem_singleton,
        List.exists_mem_cons_iff]
      rw [or_left_comm]

theorem piece_mem_leaves_case :
    Part.piece source own ∈ (choiceTree Part.alone id output fallback branches).leaves ↔
      (source, own) ∈ (fallback, output) :: pairVisits output branches := by
  simp [mem_leaves_choiceTree, SyntaxTree.leaves, pairVisits]

/-- A match is made of the same, and of its input, with which each candidate is compared. -/
theorem piece_mem_leaves_match (hBranches : branches ≠ []) :
    Part.piece source own ∈
        (choiceTree Part.alone (.binary .equal (Part.alone input none)) output fallback
          branches).leaves ↔
      (source, own) ∈ (input, none) :: (fallback, output) :: pairVisits output branches := by
  obtain ⟨branch, hBranch⟩ := List.exists_mem_of_ne_nil branches hBranches
  simp only [mem_leaves_choiceTree, SyntaxTree.leaves, List.mem_append, Part.piece.injEq,
    List.mem_cons, pairVisits, List.mem_flatMap, List.not_mem_nil, or_false,
    Prod.mk.injEq]
  grind

variable {power : Float} {below : SyntaxTree Part} {start stop value : Expression}

/-- The pieces of a segment are those of the blend below it, and its own stops and output. -/
theorem piece_mem_leaves_segment :
    Part.piece source own ∈ (segmentTree Part.own (Part.alone input none)
        (.leaf (.own (.number power))) below (Part.alone value output) (Part.alone start none)
        (Part.alone stop none)).leaves ↔
      Part.piece source own ∈ below.leaves ∨
        (source, own) ∈ [(input, none), (start, none), (stop, none), (value, output)] := by
  simp only [segmentTree, SyntaxTree.leaves, SyntaxTree.leavesAll, List.mem_append, List.mem_cons,
    List.not_mem_nil, or_false, Part.piece.injEq, reduceCtorEq, Prod.mk.injEq]
  grind

/-- The segments after one that has been written add their stops and their outputs. -/
theorem piece_mem_leaves_ramp (hInput : Part.piece input none ∈ below.leaves)
    (hStart : Part.piece start none ∈ below.leaves) :
    Part.piece source own ∈ (rampTree Part.alone Part.own (Part.alone input none)
        (.leaf (.own (.number power))) output below start stops).leaves ↔
      Part.piece source own ∈ below.leaves ∨ (source, own) ∈ pairVisits output stops := by
  induction stops generalizing below start with
  | nil => simp [rampTree, pairVisits]
  | cons pair rest ih =>
      obtain ⟨stop, value⟩ := pair
      rw [rampTree, ih (piece_mem_leaves_segment.mpr (by simp))
        (piece_mem_leaves_segment.mpr (by simp)), piece_mem_leaves_segment]
      simp only [pairVisits, List.flatMap_cons, List.mem_append, List.mem_cons, List.not_mem_nil,
        or_false, Prod.mk.injEq]
      grind

/-- An interpolation is made of its input, its stops and its outputs. -/
theorem piece_mem_leaves_blend (hStops : 2 ≤ stops.length) :
    Part.piece source own ∈
        (blendTree Part.alone Part.own input power output stops).leaves ↔
      (source, own) ∈ (input, none) :: pairVisits output stops := by
  obtain ⟨⟨start, first⟩, rest, rfl⟩ := List.exists_cons_of_length_pos (by omega : 0 < stops.length)
  obtain ⟨⟨stop, value⟩, rest, rfl⟩ := List.exists_cons_of_length_pos
    (Nat.lt_of_succ_lt_succ hStops)
  rw [blendTree, rampTree, piece_mem_leaves_ramp (piece_mem_leaves_segment.mpr (by simp))
    (piece_mem_leaves_segment.mpr (by simp)), piece_mem_leaves_segment]
  simp only [SyntaxTree.leaves, pairVisits, List.flatMap_cons, List.mem_append, List.mem_cons,
    List.not_mem_nil, or_false, Prod.mk.injEq, Part.piece.injEq]
  grind

end Pieces

end Builtin

namespace Vocabulary

variable (words : Vocabulary)

/-- What a call lowers, in order, each under its hint. -/
def visits (b : Builtin) (args : List Expression) (hint : Option TypeSet) :
    List (Expression × Option TypeSet) :=
  b.visits (words.arguments args) hint args

/-- Lowers expressions one after the other, each under its hint. -/
def lowerEach (visits : List (Expression × Option TypeSet)) : Lowering (List String) :=
  visits.mapM fun visit => words.registry.lower visit.1 visit.2

/-- Lowering one expression after the other follows the visits of their nodes. -/
theorem lowerEach_follows (stage : Stage) (codes : LiteralTable)
    (visits : List (Expression × Option TypeSet)) :
    Follows stage codes (List.map (Phrase.text stage codes)) (words.lowerEach visits)
      (Node.visitAll (visits.map (Prod.map words.node id))) := by
  rw [lowerEach]
  induction visits with
  | nil => exact Follows.pure_of ([] : List Phrase)
  | cons visit rest ih =>
      rw [List.mapM_cons]
      refine (words.node_faithful stage codes visit.1 visit.2).bind fun phrase _ => ?_
      exact ih.bind fun phrases _ => Follows.pure_of (phrase :: phrases)

/-- Whatever is lowered one after the other leaves its events behind, and ends as the visits do. -/
theorem lowerEach_eq (visits : List (Expression × Option TypeSet)) (state : State) :
    let script := Node.visitAll (visits.map (Prod.map words.node id))
    words.lowerEach visits state =
      script.finish
      (List.map (Phrase.text state.scope.stage (state.recordAll script.events).literals))
        (state.recordAll script.events) :=
  words.lowerEach_follows _ _ visits state rfl (List.prefix_refl _)

end Vocabulary

namespace Registry

open Vocabulary

/-- A call that chooses hands a type down. It lowers its outputs with the type as their hint and
what decides between them without a hint, in the order of its visits, and nothing else. When it
succeeds, its text is made of just these. When it fails, one of them has failed, unless the call was
turned down before it came to them, and then not because a type was ambiguous. -/
structure HandsDown (b : Builtin) (args : List Expression) (hint : Option TypeSet)
    (output : TypeSet) : Prop where
  visits : ∀ visit, visit ∈ standard.visits b args hint ↔
    (visit.1 ∈ b.outputs args ∧ visit.2 = some output) ∨ (visit.1 ∈ b.tests args ∧ visit.2 = none)
  succeeds : ∀ state text final,
    builtin.lower (.call b.name args) hint state = .ok text final →
      (∃ texts log, standard.lowerEach (standard.visits b args hint) state =
        .ok texts { final with log := log }) ∧
      ∃ tree spell, IsMadeOf (.call b.name args) hint text final tree spell ∧
        ∀ source own, .piece source own ∈ tree.leaves ↔
          (source, own) ∈ standard.visits b args hint
  fails : ∀ state error final,
    builtin.lower (.call b.name args) hint state = .error error final →
      (∃ log, standard.lowerEach (standard.visits b args hint) state =
        .error error { final with log := log }) ∨
      (∃ log, final = { state with log := log }) ∧ b.Rejects args error

variable {b : Builtin} {args : List Expression} {hint : Option TypeSet} {state final : State}

/-- The hint for the outputs of a call is made of its types and of its own hint. -/
theorem outputHint_of_infer {types : TypeSet}
    (h : builtin.infer (.call b.name args) = .ok types) (hint : Option TypeSet) :
    b.outputHint (standard.arguments args) hint = some (Operator.narrow types hint) := by
  rw [← arguments_nodes, Builtin.outputHint, Plan.terms_arguments,
    ← standard.types_call (word?_name b), show standard.registry.infer _ = _ from h]

/-- The text of a call that chooses is made of its visits. -/
theorem exists_isMadeOf_visits (hConditional : b.isConditional) {text : String}
    (h : builtin.lower (.call b.name args) hint state = .ok text final) :
    ∃ tree spell, IsMadeOf (.call b.name args) hint text final tree spell ∧
      ∀ source own, .piece source own ∈ tree.leaves ↔
        (source, own) ∈ standard.visits b args hint := by
  cases b with
  | interpolate =>
      obtain ⟨kind, input, stops, power, types, rfl, hLength, _, hTypes, hMade⟩ :=
        lower_interpolate_ok h
      refine ⟨_, _, hMade, fun source own => ?_⟩
      simp only [Vocabulary.visits, Builtin.visits, outputHint_of_infer hTypes, Operator.pairs_row]
      exact Builtin.piece_mem_leaves_blend hLength
  | matching =>
      obtain ⟨input, branches, fallback, types, rfl, hBranches, hTypes, hMade⟩ := lower_match_ok h
      refine ⟨_, _, hMade, fun source own => ?_⟩
      have hLast : (input :: (Operator.row branches ++ [fallback])).getLast? = some fallback := by
        rw [← List.cons_append, List.getLast?_concat]
      simp only [Vocabulary.visits, Builtin.visits, outputHint_of_infer hTypes]
      simp only [List.cons_append, hLast, List.dropLast_concat, Operator.pairs_row]
      rw [Builtin.piece_mem_leaves_match hBranches]
      simp only [List.mem_cons, Builtin.mem_pairVisits_reverse]
  | casewise =>
      obtain ⟨branches, fallback, types, rfl, hBranches, hTypes, hMade⟩ := lower_case_ok h
      refine ⟨_, _, hMade, fun source own => ?_⟩
      simp only [Vocabulary.visits, Builtin.visits, outputHint_of_infer hTypes,
        List.getLast?_concat, List.dropLast_concat, Operator.pairs_row]
      rw [Builtin.piece_mem_leaves_case]
      simp only [List.mem_cons, Builtin.mem_pairVisits_reverse]
  | _ => cases hConditional

/-- A call that chooses and is not turned down does what its visits do. -/
theorem endsAlike_visits (hConditional : b.isConditional) {plan : Plan}
    (hPlan : b.plan (standard.nodes args) hint = .ok plan) :
    (standard.script (.call b.name args) hint).EndsAlike
      (Node.visitAll ((standard.visits b args hint).map (Prod.map standard.node id))) := by
  have hVisits := Builtin.plan_visits hPlan
  have hNamed : plan.events = [] := by
    rw [hVisits.events]
    cases b with
    | interpolate | matching | casewise => rfl
    | _ => cases hConditional
  obtain ⟨text, hScript⟩ := standard.script_call (word?_name b) args hint
  rw [hScript, hPlan, show Plan.checked (.ok plan) = plan.script from rfl, Plan.script_eq, hNamed,
    Vocabulary.visits, ← standard.visits_nodes]
  exact (Script.EndsAlike.trace text _).trans
    ((Script.EndsAlike.map _ plan.build).trans hVisits.alike)

/-- A call that settles on a type hands it down. -/
theorem handsDown (hConditional : b.isConditional) {types output : TypeSet}
    (hTypes : builtin.infer (.call b.name args) = .ok types)
    (hOutput : output = Operator.narrow types hint) (hUnique : output.isUnique) :
    HandsDown b args hint output where
  visits visit := by
    rw [Vocabulary.visits, Builtin.mem_visits_iff hConditional, outputHint_of_infer hTypes, hOutput]
  succeeds state text final h := by
    refine ⟨?_, exists_isMadeOf_visits hConditional h⟩
    obtain ⟨plan, hPlan, _⟩ := lower_call_ok h
    obtain ⟨phrase, hPhrase, rfl, _⟩ := standard.lower_eq_ok h
    rw [lowerEach_eq]
    exact (endsAlike_visits hConditional hPlan).finish_of_ok hPhrase state _
  fails state error final h := by
    cases hPlan : b.plan (standard.nodes args) hint with
    | ok plan =>
        refine .inl ?_
        obtain ⟨hError, rfl⟩ := standard.lower_eq_error h
        rw [lowerEach_eq]
        exact (endsAlike_visits hConditional hPlan).finish_of_error hError state _
    | error other =>
        obtain ⟨text, hScript⟩ := standard.script_call (word?_name b) args hint
        obtain ⟨hError, rfl⟩ := standard.lower_eq_error h
        rw [hScript, hPlan] at hError
        cases hError
        have hReturns := (standard.types_call (word?_name b) args).symm.trans hTypes
        refine .inr ⟨?_, Plan.failsOnly_of_isUnique hConditional hReturns (hOutput ▸ hUnique) _
          hPlan⟩
        rw [hScript, hPlan]
        exact ⟨_, rfl⟩

end Registry

end PointStyle
