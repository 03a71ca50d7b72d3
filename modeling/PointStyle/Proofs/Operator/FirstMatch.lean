import PointStyle.Proofs.Lowering.Parts

/-! First match wins. The pairs of a match or a case are lowered from the last to the first, but
they stand in the text in the order of the source, each around those after it, so the first pair
whose test holds decides. -/
namespace PointStyle

open Lowering Glsl

namespace Operator

variable {α : Type}

/-- The output of the first branch whose test holds, or else the fallback. -/
def chosen (branches : List (α × α)) (fallback : α) (holds : α → Bool) : α :=
  (branches.find? fun branch => holds branch.1).elim fallback (·.2)

end Operator

namespace Plan

theorem le_length_of_ofMatch {args : List Node} {hint : Option TypeSet} {plan : Plan}
    (h : ofMatch args hint = .ok plan) : 4 ≤ args.length := by
  obtain ⟨_, _, h⟩ := bind_eq_ok h
  obtain ⟨_, hLeast, _⟩ := bind_eq_ok h
  exact le_length_of_requireAtLeast hLeast

theorem le_length_of_ofCase {args : List Node} {hint : Option TypeSet} {plan : Plan}
    (h : ofCase args hint = .ok plan) : 3 ≤ args.length := by
  obtain ⟨_, _, h⟩ := bind_eq_ok h
  obtain ⟨_, hLeast, _⟩ := bind_eq_ok h
  exact le_length_of_requireAtLeast hLeast

/-- The phrases come backwards, so they are put together in the order of the source. -/
theorem choicePhrase_reverse (test : Phrase → Phrase) (phraseOf : Node × Option TypeSet → Phrase)
    (output : TypeSet) (fallback : Phrase) (branches : List (Node × Node)) :
    choicePhrase test (fallback :: (choiceOperands output branches).map phraseOf).reverse =
      branches.foldr (fun branch rest =>
        .group (.conditional (test (phraseOf (branch.1, none)))
          (phraseOf (branch.2, some output)) rest))
        fallback := by
  induction branches with
  | nil => rfl
  | cons branch rest ih =>
      rw [choiceOperands, List.map_append, ← List.cons_append, List.reverse_append,
        List.foldr_cons, ← ih]
      rfl

end Plan

section Choice

open Builtin

variable (test : SyntaxTree Part → SyntaxTree Part) (output : Option TypeSet)
  (fallback : Expression) (branches : List (Expression × Expression))

/-- A choice is written as conditionals, one inside the other. -/
theorem write_choiceTree (spell : Part → String) :
    (choiceTree Part.alone test output fallback branches).write spell =
      branches.foldr (fun branch rest =>
        Glsl.conditional ((test (Part.alone branch.1 none)).write spell)
          (spell (.piece branch.2 output)) rest)
        (spell (.piece fallback output)) := by
  rw [choiceTree, SyntaxTree.write_choice, List.foldr_map]
  rfl

/-- A choice has the value of the output of the first pair whose test holds, or of the fallback. -/
theorem evaluate_choiceTree {V : Type} (meaning : Interpretation V) (value : Part → V) :
    (choiceTree Part.alone test output fallback branches).evaluate meaning value =
      value (.piece (Operator.chosen branches fallback fun candidate =>
        meaning.holds ((test (Part.alone candidate none)).evaluate meaning value)) output) := by
  let holds := fun candidate : Expression =>
    meaning.holds ((test (Part.alone candidate none)).evaluate meaning value)
  rw [choiceTree, SyntaxTree.evaluate_choice, List.find?_map, Operator.chosen]
  show Option.elim (Option.map _ (branches.find? fun branch => holds branch.1)) _ _ = _
  cases branches.find? fun branch => holds branch.1 <;> rfl

end Choice

/-- Branches that are parts make a choice. -/
theorem Composes.choice {state : State} {test : Phrase → Phrase}
    {testTree : SyntaxTree Part → SyntaxTree Part}
    (hTest : ∀ phrase e, Composes state phrase (Part.alone e none) →
      Composes state (test phrase) (testTree (Part.alone e none)))
    {output : TypeSet} {fallback : Node} {branches : List (Node × Node)}
    (hOperands : ∀ operand ∈ (fallback, some output) :: Plan.choiceOperands output branches,
      Composes state (operand.1.phrase operand.2) (.leaf (.ofOperand operand))) :
    Composes state
      (Plan.choicePhrase test
        (((fallback, some output) :: Plan.choiceOperands output branches).map fun operand =>
          operand.1.phrase operand.2).reverse)
      (Builtin.choiceTree Part.alone testTree (some output) fallback.source
        (branches.map fun branch => (branch.1.source, branch.2.source))) := by
  obtain ⟨hFallback, hBranches⟩ := List.forall_mem_cons.mp hOperands
  clear hOperands
  rw [List.map_cons, Plan.choicePhrase_reverse, Builtin.choiceTree]
  induction branches with
  | nil => exact hFallback
  | cons branch rest ih =>
      obtain ⟨hRest, hBranch⟩ := List.forall_mem_append.mp hBranches
      obtain ⟨hCandidate, hBranch⟩ := List.forall_mem_cons.mp hBranch
      have hValue := hBranch _ (List.mem_singleton_self _)
      exact (hTest _ _ hCandidate).conditional hValue (ih hRest)

namespace Plan

/-- Branches and a fallback, told from the nodes. -/
theorem map_source_eq_row {nodes : List Node} {fallback : Node} (hOdd : nodes.length % 2 = 1)
    (hLength : 3 ≤ nodes.length) (hLast : nodes.getLast? = some fallback) :
    nodes.map Node.source = Operator.row (sourcePairs nodes.dropLast) ++ [fallback.source] ∧
      sourcePairs nodes.dropLast ≠ [] := by
  have hDrop : nodes.dropLast.length = nodes.length - 1 := List.length_dropLast
  constructor
  · rw [row_sourcePairs (by omega)]
    conv_lhs => rw [← dropLast_append_getLast? hLast, List.map_append]
    rfl
  · refine List.ne_nil_of_length_pos ?_
    rw [sourcePairs, List.length_map, Operator.length_pairs]
    omega

end Plan

namespace Registry

variable {args : List Expression} {hint : Option TypeSet} {state final : State} {text : String}

/-- A match that is lowered has an input, pairs and a fallback, and its text is made of the tree of
its choice. -/
theorem lower_match_ok
    (h : Registry.builtin.lower (.call Builtin.matching.name args) hint state = .ok text final) :
    ∃ input branches fallback types,
      args = input :: Operator.row branches ++ [fallback] ∧ branches ≠ [] ∧
      Registry.builtin.infer (.call Builtin.matching.name args) = .ok types ∧
      IsMadeOf (.call Builtin.matching.name args) hint text final
        (Builtin.choiceTree Part.alone (.binary .equal (Part.alone input none))
          (some (Operator.narrow types hint)) fallback branches)
        (Part.spell final) := by
  obtain ⟨plan, hPlan, hOperands, hMade⟩ := lower_call_ok h
  have hLength := Plan.le_length_of_ofMatch hPlan
  obtain ⟨input, rest, fallback, output, hNodes, hEven, hLast, hOutput, rfl⟩ :=
    Plan.ofMatch_ok hPlan
  obtain ⟨types, hTypes, rfl⟩ := Vocabulary.infer_of_outputTypes (b := .matching) hOutput
  obtain ⟨hInput, hOperands⟩ := List.forall_mem_cons.mp hOperands
  rw [hNodes, List.length_cons] at hEven hLength
  have hRest : rest ≠ [] := List.ne_nil_of_length_pos (by omega)
  rw [hNodes, List.getLast?_cons_of_ne_nil hRest] at hLast
  obtain ⟨hRow, hBranches⟩ := Plan.map_source_eq_row (by omega) (by omega) hLast
  refine ⟨input.source, Plan.sourcePairs rest.dropLast, fallback.source, types, ?_, hBranches,
    hTypes, hMade _ (Composes.choice (fun phrase e hPhrase => ?_) hOperands)⟩
  · rw [← Vocabulary.standard.map_source_nodes args, hNodes, List.map_cons, hRow, List.cons_append]
  · exact hInput.binary .equal hPhrase

/-- A case that is lowered has pairs and a fallback, and its text is made of the tree of its
choice. -/
theorem lower_case_ok
    (h : Registry.builtin.lower (.call Builtin.casewise.name args) hint state = .ok text final) :
    ∃ branches fallback types,
      args = Operator.row branches ++ [fallback] ∧ branches ≠ [] ∧
      Registry.builtin.infer (.call Builtin.casewise.name args) = .ok types ∧
      IsMadeOf (.call Builtin.casewise.name args) hint text final
        (Builtin.choiceTree Part.alone id (some (Operator.narrow types hint)) fallback branches)
        (Part.spell final) := by
  obtain ⟨plan, hPlan, hOperands, hMade⟩ := lower_call_ok h
  have hLength := Plan.le_length_of_ofCase hPlan
  obtain ⟨fallback, output, hOdd, hLast, hOutput, rfl⟩ := Plan.ofCase_ok hPlan
  obtain ⟨types, hTypes, rfl⟩ := Vocabulary.infer_of_outputTypes (b := .casewise) hOutput
  obtain ⟨hRow, hBranches⟩ := Plan.map_source_eq_row hOdd hLength hLast
  refine ⟨Plan.sourcePairs (Vocabulary.standard.nodes args).dropLast, fallback.source, types, ?_,
    hBranches, hTypes, hMade _ (Composes.choice (fun phrase e hPhrase => hPhrase) hOperands)⟩
  rw [← hRow, Vocabulary.standard.map_source_nodes]

end Registry

/-- First match wins. The text of a match or a case that can be lowered is the fold over its pairs
in the order of the source, around the fallback; each piece is written as lowering it alone, with
the same hint, writes it in the final state. So whatever the pieces and the operators mean, the
value is that of the output of the first pair whose test holds, or of the fallback when none
does. -/
theorem Registry.first_match_wins (args : List Expression) (hint : Option TypeSet)
    (state final : State) (text : String) :
    (Registry.builtin.lower (.call "match" args) hint state = .ok text final →
      ∃ input branches fallback types spell,
        args = input :: Operator.row branches ++ [fallback] ∧ branches ≠ [] ∧
        Registry.builtin.infer (.call "match" args) = .ok types ∧
        let output := some (Operator.narrow types hint)
        let tree := Builtin.choiceTree Part.alone (.binary .equal (Part.alone input none)) output
          fallback branches
        IsMadeOf (.call "match" args) hint text final tree spell ∧
        text = branches.foldr (fun branch rest => Glsl.conditional
          (spell (.piece input none) ++ " == " ++ spell (.piece branch.1 none))
          (spell (.piece branch.2 output)) rest) (spell (.piece fallback output)) ∧
        ∀ (V : Type) (meaning : Interpretation V) (value : Part → V),
          tree.evaluate meaning value =
            value (.piece (Operator.chosen branches fallback fun candidate => meaning.holds
              (meaning.binary .equal (value (.piece input none)) (value (.piece candidate none))))
              output)) ∧
    (Registry.builtin.lower (.call "case" args) hint state = .ok text final →
      ∃ branches fallback types spell,
        args = Operator.row branches ++ [fallback] ∧ branches ≠ [] ∧
        Registry.builtin.infer (.call "case" args) = .ok types ∧
        let output := some (Operator.narrow types hint)
        let tree := Builtin.choiceTree Part.alone id output fallback branches
        IsMadeOf (.call "case" args) hint text final tree spell ∧
        text = branches.foldr (fun branch rest => Glsl.conditional (spell (.piece branch.1 none))
          (spell (.piece branch.2 output)) rest) (spell (.piece fallback output)) ∧
        ∀ (V : Type) (meaning : Interpretation V) (value : Part → V),
          tree.evaluate meaning value =
            value (.piece (Operator.chosen branches fallback fun condition =>
              meaning.holds (value (.piece condition none))) output)) := by
  constructor
  · intro h
    obtain ⟨input, branches, fallback, types, hArgs, hBranches, hTypes, hMade⟩ := lower_match_ok h
    refine ⟨input, branches, fallback, types, _, hArgs, hBranches, hTypes, hMade, ?_, ?_⟩
    · rw [hMade.text_eq, write_choiceTree]
      rfl
    · exact fun _ meaning value => evaluate_choiceTree _ _ fallback branches meaning value
  · intro h
    obtain ⟨branches, fallback, types, hArgs, hBranches, hTypes, hMade⟩ := lower_case_ok h
    refine ⟨branches, fallback, types, _, hArgs, hBranches, hTypes, hMade, ?_, ?_⟩
    · rw [hMade.text_eq, write_choiceTree]
      rfl
    · exact fun _ meaning value => evaluate_choiceTree _ _ fallback branches meaning value

/-- A match with two candidates, of which the second is lowered first. -/
def Expression.sampleMatch : Expression :=
  .call "match" (.call "get" [.string "kind"] ::
    Operator.row [(.string "b", .number 10), (.string "a", .number 20)] ++ [.number 30])

/-- A case with one condition. -/
def Expression.sampleCase : Expression :=
  .call "case"
    (Operator.row [(.call "==" [.call "get" [.string "kind"], .string "a"], .number 10)] ++
      [.number 30])

theorem Registry.first_match_wins_samples :
    (∃ final input branches fallback types spell,
      Registry.builtin.lower .sampleMatch none (State.fresh .fragment) =
        .ok "(v_kind == 1.0 ? 10.0 : (v_kind == 0.0 ? 20.0 : 30.0))" final ∧
      IsMadeOf .sampleMatch none
        "(v_kind == 1.0 ? 10.0 : (v_kind == 0.0 ? 20.0 : 30.0))" final
        (Builtin.choiceTree Part.alone (.binary .equal (Part.alone input none))
          (some (Operator.narrow types none)) fallback branches) spell) ∧
    (∃ final branches fallback types spell,
      Registry.builtin.lower .sampleCase none (State.fresh .vertex) =
        .ok "((a_kind == 0.0) ? 10.0 : 30.0)" final ∧
      IsMadeOf .sampleCase none "((a_kind == 0.0) ? 10.0 : 30.0)" final
        (Builtin.choiceTree Part.alone id (some (Operator.narrow types none)) fallback branches)
        spell) := by
  constructor
  · have hLower : ∃ text final,
        Registry.builtin.lower .sampleMatch none (State.fresh .fragment) =
          .ok text final ∧ text = "(v_kind == 1.0 ? 10.0 : (v_kind == 0.0 ? 20.0 : 30.0))" :=
      ⟨_, _, rfl, by decide +kernel⟩
    obtain ⟨_, final, hLower, rfl⟩ := hLower
    obtain ⟨input, branches, fallback, types, spell, _, _, _, hMade, _⟩ :=
      (first_match_wins _ _ _ _ _).1 hLower
    exact ⟨final, input, branches, fallback, types, spell, hLower, hMade⟩
  · have hLower : ∃ text final,
        Registry.builtin.lower .sampleCase none (State.fresh .vertex) =
          .ok text final ∧ text = "((a_kind == 0.0) ? 10.0 : 30.0)" :=
      ⟨_, _, rfl, by decide +kernel⟩
    obtain ⟨_, final, hLower, rfl⟩ := hLower
    obtain ⟨branches, fallback, types, spell, _, _, _, hMade, _⟩ :=
      (first_match_wins _ _ _ _ _).2 hLower
    exact ⟨final, branches, fallback, types, spell, hLower, hMade⟩

end PointStyle
