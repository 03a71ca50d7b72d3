import PointStyle.Proofs.Glsl.Evaluation
import PointStyle.Proofs.Lowering.Again
import PointStyle.Proofs.Lowering.Hints

/-! Texts made of parts. The operands of a call are lowered one after the other, each in the state
that the others left behind. Still the text of every operand is the one that lowering it alone gives
in the final state, so the text of a call is a tree over its operands, written out. -/
namespace PointStyle

open Lowering Glsl

/-- What the text of a call is made of. -/
inductive Part where
  /-- An expression that is lowered on its own, under a hint. -/
  | piece (source : Expression) (hint : Option TypeSet)
  /-- What the operator adds. -/
  | own (a : Atom)

namespace Part

/-- An expression lowered on its own, as a tree over parts. -/
abbrev alone (source : Expression) (hint : Option TypeSet) : SyntaxTree Part :=
  .leaf (.piece source hint)

/-- The tree that the part stands for. -/
def tree : Part → SyntaxTree Atom
  | .piece source hint => Vocabulary.standard.tree source hint
  | .own a => .leaf a

/-- The part on its own has the text in the state; lowering it adds to the log only. -/
def Spells (state : State) (text : String) : Part → Prop
  | .piece source hint =>
    ∃ log, Registry.builtin.lower source hint state = .ok text { state with log := log }
  | .own a => text = a.text state.scope.stage state.literals

end Part

/-- The text of an expression is that of a tree over parts, each of which is written as it would be
alone in the final state; and the tree that the operator table prescribes for the expression is the
same tree with the trees of the parts in it. -/
structure IsMadeOf (e : Expression) (hint : Option TypeSet) (text : String) (final : State)
    (tree : SyntaxTree Part) (spell : Part → String) : Prop where
  spells : ∀ part ∈ tree.leaves, part.Spells final (spell part)
  text_eq : text = tree.write spell
  tree_eq : Vocabulary.standard.tree e hint = tree.bind Part.tree

namespace Node

def source (node : Node) : Expression :=
  node.term.source

/-- The phrase that lowering the node gives. -/
def phrase (node : Node) (hint : Option TypeSet) : Phrase :=
  match (node.script hint).outcome with
  | .ok phrase => phrase
  | .error _ => .atom (.numeral "")

/-- The phrase of a node is what its script gives. -/
theorem phrase_of_ok {node : Node} {hint : Option TypeSet} {phrase : Phrase}
    (h : (node.script hint).outcome = .ok phrase) : node.phrase hint = phrase := by
  rw [Node.phrase, h]

/-- Operands that are lowered without a failure give their phrases, and record all their events. -/
theorem visitAll_ok {operands : List (Node × Option TypeSet)} {phrases : List Phrase}
    (h : (visitAll operands).outcome = .ok phrases) :
    phrases = operands.map (fun operand => operand.1.phrase operand.2) ∧
      ∀ operand ∈ operands,
        (operand.1.script operand.2).outcome = .ok (operand.1.phrase operand.2) ∧
        (operand.1.script operand.2).events ⊆ (visitAll operands).events := by
  induction operands generalizing phrases with
  | nil =>
      cases h
      exact ⟨rfl, fun _ hOperand => absurd hOperand List.not_mem_nil⟩
  | cons operand rest ih =>
      obtain ⟨node, hint⟩ := operand
      obtain ⟨phrase, others, rfl, hPhrase, hOthers, hAll⟩ := visitAll_cons_ok h
      obtain ⟨hEq, hRest⟩ := ih hOthers
      have hNode := phrase_of_ok hPhrase
      refine ⟨by rw [hEq, List.map_cons, hNode], ?_⟩
      rw [hAll]
      refine List.forall_mem_cons.mpr ⟨⟨hNode ▸ hPhrase, List.subset_append_left _ _⟩, ?_⟩
      exact fun other hOther => (hRest other hOther).imp_right fun hSubset =>
        List.Subset.trans hSubset (List.subset_append_right _ _)

end Node

/-- A plan that succeeds builds its phrase from those of its operands, and it records all that they
record. -/
theorem Plan.script_ok {plan : Plan} {phrase : Phrase} (h : plan.script.outcome = .ok phrase) :
    phrase = plan.build (plan.operands.map fun operand => operand.1.phrase operand.2) ∧
      ∀ operand ∈ plan.operands,
        (operand.1.script operand.2).outcome = .ok (operand.1.phrase operand.2) ∧
        (operand.1.script operand.2).events ⊆ plan.script.events := by
  obtain ⟨_, hPhrases, rfl, hAll⟩ := script_outcome_ok h
  obtain ⟨rfl, hOperands⟩ := Node.visitAll_ok hPhrases
  refine ⟨rfl, fun operand hOperand => (hOperands operand hOperand).imp_right fun hSubset => ?_⟩
  rw [hAll]
  exact List.Subset.trans hSubset (List.subset_append_right _ _)

/-- An operand as a part of the text. -/
def Part.ofOperand (operand : Node × Option TypeSet) : Part :=
  .piece operand.1.source operand.2

namespace Part

/-- The text of a part with the names and codes of a state. -/
def spell (state : State) : Part → String
  | .piece source hint =>
    ((Vocabulary.standard.node source).phrase hint).text state.scope.stage state.literals
  | .own a => a.text state.scope.stage state.literals

end Part

/-- The phrase is a tree over parts that stand on their own in the state. -/
structure Composes (state : State) (phrase : Phrase) (tree : SyntaxTree Part) : Prop where
  spells : ∀ part ∈ tree.leaves, part.Spells state (part.spell state)
  text : phrase.text state.scope.stage state.literals = tree.write (Part.spell state)
  erase : phrase.erase = tree.bind Part.tree

namespace Composes

/-- A phrase in the parentheses that it needs as an operand. -/
def enclose (tree : SyntaxTree Part) (phrase : Phrase) : Phrase :=
  if tree.isOpen then .group phrase else phrase

/-- Brackets around a phrase stand where the tree needs them. -/
theorem text_enclose (tree : SyntaxTree Part) (phrase : Phrase) (stage : Stage)
    (codes : LiteralTable) :
    (enclose tree phrase).text stage codes = tree.enclose (phrase.text stage codes) := by
  rw [enclose, SyntaxTree.enclose]
  split <;> rfl

/-- Brackets do not change the tree of a phrase. -/
theorem erase_enclose (tree : SyntaxTree Part) (phrase : Phrase) :
    (enclose tree phrase).erase = phrase.erase := by
  rw [enclose]
  split <;> rfl

variable {state : State}

theorem own (a : Atom) : Composes state (.atom a) (.leaf (.own a)) := by
  refine ⟨fun part hPart => ?_, rfl, rfl⟩
  rw [List.mem_singleton.mp hPart]
  rfl

/-- What can be lowered and is known to the state is a part. -/
theorem piece {e : Expression} {hint : Option TypeSet} {phrase : Phrase}
    (hPhrase : ((Vocabulary.standard.node e).script hint).outcome = .ok phrase)
    (hKnows : ∀ event ∈ ((Vocabulary.standard.node e).script hint).events, state.Knows event) :
    Composes state phrase (.leaf (.piece e hint)) := by
  have hText : (Part.piece e hint).spell state = phrase.text state.scope.stage state.literals := by
    rw [Part.spell, Node.phrase_of_ok hPhrase]
  refine ⟨fun part hPart => ?_, hText.symm, (Vocabulary.node_isSound e hint phrase hPhrase).erase⟩
  rw [List.mem_singleton.mp hPart, hText]
  exact Vocabulary.standard.lower_of_knows hPhrase hKnows

variable {left right test yes no : Phrase}
  {leftTree rightTree testTree yesTree noTree : SyntaxTree Part}

/-- An operation composes the trees of its operands. -/
theorem binary (operator : BinaryOperator) (hLeft : Composes state left leftTree)
    (hRight : Composes state right rightTree) :
    Composes state (.binary operator (enclose leftTree left) (enclose rightTree right))
      (.binary operator leftTree rightTree) := by
  refine ⟨List.forall_mem_append.mpr ⟨hLeft.spells, hRight.spells⟩, ?_, ?_⟩
  · rw [Phrase.text, text_enclose, text_enclose, hLeft.text, hRight.text, SyntaxTree.write]
  · rw [Phrase.erase, erase_enclose, erase_enclose, SyntaxTree.bind, hLeft.erase, hRight.erase]

theorem conditional (hTest : Composes state test testTree) (hYes : Composes state yes yesTree)
    (hNo : Composes state no noTree) :
    Composes state (.group (.conditional test yes no)) (.conditional testTree yesTree noTree) := by
  refine ⟨List.forall_mem_append.mpr ⟨List.forall_mem_append.mpr ⟨hTest.spells, hYes.spells⟩,
    hNo.spells⟩, ?_, ?_⟩
  · rw [SyntaxTree.write, Glsl.conditional, ← hTest.text, ← hYes.text, ← hNo.text]
    simp only [Phrase.text, String.append_assoc]
  · rw [Phrase.erase, Phrase.erase, SyntaxTree.bind, hTest.erase, hYes.erase, hNo.erase]

/-- A call composes the trees of its arguments. -/
theorem call (function : String) {args : List Phrase} {trees : List (SyntaxTree Part)}
    (hArgs : List.Forall₂ (Composes state) args trees) :
    Composes state (.call function args) (.call function trees) := by
  have hAll : (∀ part ∈ SyntaxTree.leavesAll trees, part.Spells state (part.spell state)) ∧
      Phrase.texts state.scope.stage state.literals args =
        SyntaxTree.writeAll (Part.spell state) trees ∧
      Phrase.eraseAll args = SyntaxTree.bindAll Part.tree trees := by
    induction hArgs with
    | nil => exact ⟨fun _ hPart => absurd hPart List.not_mem_nil, rfl, rfl⟩
    | cons hFirst _ ih =>
        obtain ⟨hSpells, hTexts, hErase⟩ := ih
        refine ⟨List.forall_mem_append.mpr ⟨hFirst.spells, hSpells⟩, ?_, ?_⟩
        · rw [Phrase.texts, SyntaxTree.writeAll, hFirst.text, hTexts]
        · rw [Phrase.eraseAll, SyntaxTree.bindAll, hFirst.erase, hErase]
  obtain ⟨hSpells, hTexts, hErase⟩ := hAll
  exact ⟨hSpells, congrArg (Glsl.call function) hTexts, congrArg (SyntaxTree.call function) hErase⟩

end Composes

namespace Operator

variable {α : Type}

/-- Pairs in one row. -/
def row (branches : List (α × α)) : List α :=
  branches.flatMap fun branch => [branch.1, branch.2]

/-- Arguments that are taken in pairs can be put back in a row. -/
theorem row_pairs {xs : List α} (hEven : xs.length % 2 = 0) : row (pairs xs) = xs := by
  match xs with
  | [] => rfl
  | [_] => cases hEven
  | a :: b :: rest =>
      simp only [List.length_cons] at hEven
      rw [pairs, row, List.flatMap_cons, ← row, row_pairs (by omega)]
      rfl

/-- Pairs that are put in a row can be taken in pairs again. -/
theorem pairs_row (branches : List (α × α)) : pairs (row branches) = branches := by
  induction branches with
  | nil => rfl
  | cons branch rest ih => exact congrArg (branch :: ·) ih

end Operator

namespace Plan

/-- Pairs of nodes stand for pairs of expressions. -/
def sourcePairs (nodes : List Node) : List (Expression × Expression) :=
  (Operator.pairs nodes).map fun branch => (branch.1.source, branch.2.source)

theorem row_sourcePairs {nodes : List Node} (hEven : nodes.length % 2 = 0) :
    Operator.row (sourcePairs nodes) = nodes.map Node.source := by
  rw [sourcePairs, ← Operator.pairs_map, Operator.row_pairs (by rwa [List.length_map])]

end Plan

namespace Vocabulary

/-- A node of an expression is told by the expression. -/
theorem eq_node_source (words : Vocabulary) {args : List Expression} {node : Node}
    (h : node ∈ words.nodes args) : node = words.node node.source := by
  rw [nodes_eq_map] at h
  obtain ⟨e, _, rfl⟩ := List.mem_map.mp h
  rw [show (words.node e).source = e from Registry.source_term _ e]

theorem map_source_nodes (words : Vocabulary) (args : List Expression) :
    (words.nodes args).map Node.source = args := by
  rw [nodes_eq_map, List.map_map]
  exact List.map_id'' (words.registry.source_term) args

/-- A call is inferred to have the types that its outputs are narrowed from. -/
theorem infer_of_outputTypes {args : List Expression} {hint : Option TypeSet} {b : Builtin}
    {output : TypeSet}
    (h : Plan.outputTypes (standard.nodes args)
      (b.operator.returns (Node.terms (standard.nodes args))) hint = .ok output) :
    ∃ types, Registry.builtin.infer (.call b.name args) = .ok types ∧
      output = Operator.narrow types hint := by
  obtain ⟨types, hTypes, hOutput, _⟩ := Plan.outputTypes_ok h
  exact ⟨types, (standard.types_call (word?_name b) args).trans hTypes, hOutput⟩

end Vocabulary

namespace Registry

/-- A call that succeeds has carried out the plan of its operator, and its operands are parts in the
final state. -/
theorem lower_call_ok {b : Builtin} {args : List Expression} {hint : Option TypeSet}
    {state final : State} {text : String}
    (h : Registry.builtin.lower (.call b.name args) hint state = .ok text final) :
    ∃ plan, b.plan (Vocabulary.standard.nodes args) hint = .ok plan ∧
      (∀ operand ∈ plan.operands,
        Composes final (operand.1.phrase operand.2) (.leaf (.ofOperand operand))) ∧
      ∀ tree, Composes final
          (plan.build (plan.operands.map fun operand => operand.1.phrase operand.2)) tree →
        IsMadeOf (.call b.name args) hint text final tree (Part.spell final) := by
  obtain ⟨phrase, hPhrase, rfl, rfl⟩ := Vocabulary.standard.lower_eq_ok h
  obtain ⟨_, plan, _, hWord, hPlan, hOutcome, hEvents⟩ := Vocabulary.standard.script_call_ok hPhrase
  rw [Vocabulary.word?_name] at hWord
  cases hWord
  obtain ⟨rfl, hOperands⟩ := Plan.script_ok hOutcome
  refine ⟨plan, hPlan, fun operand hOperand => ?_, fun tree hTree => ?_⟩
  · obtain ⟨hScript, hSubset⟩ := hOperands operand hOperand
    have hNode := Vocabulary.standard.eq_node_source
      ((Builtin.plan_accounts hPlan).only operand hOperand)
    rw [hNode] at hScript hSubset ⊢
    refine Composes.piece hScript fun event hEvent => State.knows_recordAll state ?_
    rw [hEvents]
    exact List.mem_cons_of_mem _ (hSubset hEvent)
  · refine ⟨hTree.spells, hTree.text, ?_⟩
    rw [← hTree.erase]
    exact (Vocabulary.node_isSound _ hint _ hPhrase).erase.symm

end Registry

end PointStyle
