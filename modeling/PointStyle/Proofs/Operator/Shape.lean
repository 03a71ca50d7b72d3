import PointStyle.Proofs.Glsl.Reading
import PointStyle.Proofs.Operator.Plan

/-! Plans build what the operator table prescribes. The phrase of a call has parentheses wherever
the grammar needs them, if the phrases of its operands do, and without its parentheses it is the
tree that the table gives for the trees of the operands. -/
namespace PointStyle

open Lowering Glsl

/-- Atoms that stand for nothing recorded: numbers, truth values and the uniforms of the view. -/
inductive Glsl.Atom.IsPlain : Atom → Prop where
  | numeral {text : String} : text ∈ ["0.0", "0.5", "1.0", "255.0"] → IsPlain (.numeral text)
  | number (x : Float) : IsPlain (.number x)
  | truth (b : Bool) : IsPlain (.truth b)
  | view {name : String} : name ∈ ["u_time", "u_zoom", "u_resolution"] → IsPlain (.uniform name)

/-- The atom that an event is recorded for. -/
def Lowering.Event.atom? : Event → Option Atom
  | .attributeRef name => some (.attributeRef name)
  | .variableRef name => some (.uniform (Glsl.uniformName name))
  | .literalCode s => some (.code s)
  | .trace _ => none

/-- The plan builds the tree out of the trees of its operands, and adds no atom but plain ones and
those it records. -/
structure Plan.Builds (plan : Plan) (tree : SyntaxTree Atom) : Prop where
  fits : ∀ {Good : Atom → Prop}, (∀ a : Atom, a.IsPlain → Good a) →
    (∀ event ∈ plan.events, ∀ a ∈ event.atom?, Good a) → ∀ phrases : List Phrase,
    phrases.length = plan.operands.length → (∀ phrase ∈ phrases, phrase.Fits Good 7) →
    (plan.build phrases).Fits Good 7
  erase : ∀ phrases : List Phrase,
    phrases.map Phrase.erase = plan.operands.map (fun operand => operand.1.tree operand.2) →
    (plan.build phrases).erase = tree

namespace Plan

variable {Good : Atom → Prop} {args : List Node} {plan : Plan} {build : List Phrase → Phrase}
  {tree : List (SyntaxTree Atom) → SyntaxTree Atom}

/-- A way to put phrases together that does with trees what `tree` does. -/
structure Combines (count : Nat) (build : List Phrase → Phrase)
    (tree : List (SyntaxTree Atom) → SyntaxTree Atom) : Prop where
  fits : ∀ {Good : Atom → Prop}, (∀ a : Atom, a.IsPlain → Good a) → ∀ phrases : List Phrase,
    phrases.length = count → (∀ phrase ∈ phrases, phrase.Fits Good 7) → (build phrases).Fits Good 7
  erase : ∀ phrases : List Phrase, (build phrases).erase = tree (phrases.map Phrase.erase)

/-- A plan that lowers all arguments under one hint builds the tree that they are combined to. -/
theorem Combines.builds {hint : Option TypeSet} (h : Combines args.length build tree) :
    Builds ⟨[], args.map (·, hint), build⟩ (tree (args.map (·.tree hint))) := by
  refine ⟨fun hPlain _ phrases hLength hFits => ?_, fun phrases hTrees => ?_⟩
  · exact h.fits hPlain phrases (by rw [hLength, List.length_map]) hFits
  · rw [h.erase, hTrees, List.map_map]
    rfl

/-- A numeral of the table may stand anywhere. -/
theorem fits_numeral (hPlain : ∀ a : Atom, a.IsPlain → Good a) {text : String}
    (hText : text ∈ ["0.0", "0.5", "1.0", "255.0"]) {level : Nat} (hLevel : level ≤ 7) :
    (Phrase.atom (.numeral text)).Fits Good level :=
  .atom (hPlain _ (.numeral hText)) hLevel

/-- A chain may stand where its operator may. -/
theorem fits_chain (operator : BinaryOperator) {phrases : List Phrase} (hNonempty : phrases ≠ [])
    (hFits : ∀ phrase ∈ phrases, phrase.Fits Good 7) :
    (Phrase.chain operator phrases).Fits Good operator.level := by
  have hLevel := operator.level_lt
  cases phrases with
  | nil => exact absurd rfl hNonempty
  | cons first rest =>
      obtain ⟨hFirst, hRest⟩ := List.forall_mem_cons.mp hFits
      have hAcc := hFirst.mono (by omega : operator.level ≤ 7)
      rw [Phrase.chain]
      clear hFirst hFits hNonempty
      -- What has been taken in so far is always the left operand.
      induction rest generalizing first with
      | nil => exact hAcc
      | cons next rest ih =>
          obtain ⟨hNext, hRest⟩ := List.forall_mem_cons.mp hRest
          exact ih _ hRest (.binary hAcc (hNext.mono (by omega)) (Nat.le_refl _))

/-- A chain has the tree of its operands, joined from the left. -/
theorem erase_chain (operator : BinaryOperator) (phrases : List Phrase) :
    (Phrase.chain operator phrases).erase =
      Builtin.chainTree operator (phrases.map Phrase.erase) := by
  cases phrases with
  | nil => rfl
  | cons first rest =>
      rw [Phrase.chain, List.map_cons, Builtin.chainTree]
      induction rest generalizing first with
      | nil => rfl
      | cons next rest ih => exact ih (.binary operator first next)

theorem ne_nil_of_length {phrases : List Phrase} {count : Nat} (hCount : 0 < count)
    (hLength : phrases.length = count) : phrases ≠ [] :=
  List.length_pos_iff.mp (hLength ▸ hCount)

theorem combines_chain (operator : BinaryOperator) {count : Nat} (hCount : 0 < count) :
    Combines count (fun operands => .group (.chain operator operands))
      (Builtin.chainTree operator) where
  fits _ _ hLength hFits :=
    .group ((fits_chain operator (ne_nil_of_length hCount hLength) hFits).mono (Nat.zero_le _))
      (Nat.le_refl 7)
  erase phrases := erase_chain operator phrases

theorem combines_call {function : String} (hName : IsName function) {count : Nat}
    (hCount : 0 < count) : Combines count (.call function) (.call function) where
  fits _ phrases hLength hFits := by
    exact .call hName (ne_nil_of_length hCount hLength)
      (fun phrase hPhrase => (hFits phrase hPhrase).mono (Nat.zero_le 7)) (Nat.le_refl 7)
  erase phrases := by rw [Phrase.erase, Phrase.eraseAll_eq_map]

theorem combines_round :
    Combines 1 roundPhrase fun operands => .call "floor"
      (operands.map fun operand => .binary .add operand (Builtin.numeralTree "0.5")) where
  fits hPlain phrases hLength hFits := by
    obtain ⟨operand, rfl⟩ := List.length_eq_one_iff.mp hLength
    refine .call (by constructor <;> decide) (List.cons_ne_nil _ _) ?_ (Nat.le_refl 7)
    intro arg hArg
    rw [List.map_singleton, List.mem_singleton] at hArg
    subst hArg
    have hOperand := hFits operand (List.mem_singleton_self _)
    exact .binary (hOperand.mono (by decide)) (fits_numeral hPlain (by decide) (by decide))
      (by decide)
  erase phrases := by
    rw [roundPhrase, Phrase.erase, Phrase.eraseAll_eq_map, List.map_map, List.map_map]
    rfl

theorem combines_between : Combines 3 betweenPhrase Builtin.betweenTree where
  fits _ phrases hLength hFits := by
    match phrases, hLength with
    | [value, low, high], _ =>
        have hValue := hFits value (by simp)
        have hLow := hFits low (by simp)
        have hHigh := hFits high (by simp)
        refine .group (.binary ?_ ?_ (by decide)) (Nat.le_refl 7)
        · exact .binary (hValue.mono (by decide)) (hLow.mono (by decide)) (by decide)
        · exact .binary (hValue.mono (by decide)) (hHigh.mono (by decide)) (by decide)
  erase phrases := by
    match phrases with
    | [] => rfl
    | [_] => rfl
    | [_, _] => rfl
    | [_, _, _] => rfl
    | _ :: _ :: _ :: _ :: _ => rfl

theorem isName_vector {count : Nat} (hLeast : 2 ≤ count) (hMost : count ≤ 4) :
    IsName ("vec" ++ toString count) := by
  have hCount : count = 2 ∨ count = 3 ∨ count = 4 := by omega
  rcases hCount with rfl | rfl | rfl <;> constructor <;> decide

theorem erase_vector (components : List Phrase) :
    (Phrase.vector components).erase = Builtin.vectorTree (components.map Phrase.erase) := by
  rw [Phrase.vector, Phrase.erase, Phrase.eraseAll_eq_map, Builtin.vectorTree, List.length_map]

theorem combines_vector {count : Nat} (hLeast : 2 ≤ count) (hMost : count ≤ 4) :
    Combines count Phrase.vector Builtin.vectorTree where
  fits hPlain phrases hLength hFits := by
    subst hLength
    exact (combines_call (isName_vector hLeast hMost) (by omega)).fits hPlain phrases rfl hFits
  erase := erase_vector

theorem fits_channel (hPlain : ∀ a : Atom, a.IsPlain → Good a) {channel : Phrase}
    (h : channel.Fits Good 7) : (channelPhrase channel).Fits Good 0 :=
  .binary (h.mono (by decide)) (fits_numeral hPlain (by decide) (by decide)) (by decide)

/-- The components of a colour may stand in a vector. -/
theorem fits_colour (hPlain : ∀ a : Atom, a.IsPlain → Good a) {red green blue alpha : Phrase}
    (hRed : red.Fits Good 7) (hGreen : green.Fits Good 7) (hBlue : blue.Fits Good 7)
    (hAlpha : alpha.Fits Good 0) :
    (Phrase.vector
      [channelPhrase red, channelPhrase green, channelPhrase blue, alpha]).Fits Good 7 := by
  have hName := isName_vector (by decide : 2 ≤ 4) (by decide)
  refine .call hName (List.cons_ne_nil _ _) ?_ (Nat.le_refl 7)
  simp only [List.mem_cons, List.not_mem_nil, or_false, forall_eq_or_imp, forall_eq]
  exact ⟨fits_channel hPlain hRed, fits_channel hPlain hGreen, fits_channel hPlain hBlue, hAlpha⟩

/-- Three or four operands are combined to a colour. -/
theorem combines_colour {count : Nat} (hLeast : 3 ≤ count) (hMost : count ≤ 4) :
    Combines count (fun operands => Phrase.vector (colourPhrases operands))
      (fun operands => Builtin.vectorTree (Builtin.colourTrees operands)) where
  fits hPlain phrases hLength hFits := by
    have hCount : count = 3 ∨ count = 4 := by omega
    rcases hCount with rfl | rfl
    · match phrases, hLength with
      | [red, green, blue], _ =>
          exact fits_colour hPlain (hFits red (by simp)) (hFits green (by simp))
            (hFits blue (by simp))
            (fits_numeral hPlain (by decide) (by decide))
    · match phrases, hLength with
      | [red, green, blue, alpha], _ =>
          exact fits_colour hPlain (hFits red (by simp)) (hFits green (by simp))
            (hFits blue (by simp))
            ((hFits alpha (by simp)).mono (by decide))
  erase phrases := by
    have hComponents : (colourPhrases phrases).map Phrase.erase =
        Builtin.colourTrees (phrases.map Phrase.erase) := by
      match phrases with
      | [] => rfl
      | [_] => rfl
      | [_, _] => rfl
      | [_, _, _] => rfl
      | [_, _, _, _] => rfl
      | _ :: _ :: _ :: _ :: _ :: _ => rfl
    rw [erase_vector, hComponents]

def arguments (nodes : List Node) : List Argument :=
  nodes.map (·.toArgument)

theorem terms_arguments (nodes : List Node) : (arguments nodes).map (·.term) = Node.terms nodes :=
  List.map_map

/-- The trees of arguments are those of their nodes. -/
theorem trees_arguments (nodes : List Node) (hint : Option TypeSet) :
    (arguments nodes).map (·.tree hint) = nodes.map (·.tree hint) :=
  List.map_map

/-- A plan for numbers builds the tree of its numbers. -/
theorem ofNumbers_builds (h : ofNumbers args build = .ok plan)
    (hCombines : Combines args.length build tree) :
    plan.Builds (tree ((arguments args).map (·.tree (some .number)))) := by
  obtain ⟨_, rfl⟩ := ofNumbers_ok h
  rw [trees_arguments]
  exact hCombines.builds

theorem ofCount_builds {count : Nat} (h : ofCount count args build = .ok plan)
    (hCombines : Combines count build tree) :
    plan.Builds (tree ((arguments args).map (·.tree (some .number)))) := by
  obtain ⟨rfl, hPlan⟩ := ofCount_ok h
  exact ofNumbers_builds hPlan hCombines

theorem ofRange_builds {least most : Nat} (h : ofRange least most args build = .ok plan)
    (hCombines : ∀ count, least ≤ count → count ≤ most → Combines count build tree) :
    plan.Builds (tree ((arguments args).map (·.tree (some .number)))) := by
  obtain ⟨hLeast, hMost, hPlan⟩ := ofRange_ok h
  exact ofNumbers_builds hPlan (hCombines _ hLeast hMost)

theorem ofNumericChain_builds {operator : BinaryOperator}
    (h : ofNumericChain operator args = .ok plan) :
    plan.Builds (Builtin.chainTree operator ((arguments args).map (·.tree (some .number)))) := by
  obtain ⟨hCount, hPlan⟩ := ofNumericChain_ok h
  exact ofNumbers_builds hPlan (combines_chain operator (by omega))

theorem ofBooleanChain_builds {operator : BinaryOperator}
    (h : ofBooleanChain operator args = .ok plan) :
    plan.Builds (Builtin.chainTree operator ((arguments args).map (·.tree (some .boolean)))) := by
  obtain ⟨hCount, _, rfl⟩ := ofBooleanChain_ok h
  rw [trees_arguments]
  exact (combines_chain operator (by omega)).builds

theorem ofName_builds {event : String → Event} {atom : String → Atom}
    (hAtom : ∀ name, (event name).atom? = some (atom name))
    (h : ofName event atom args = .ok plan) :
    plan.Builds (Builtin.namedTree atom (arguments args)) := by
  obtain ⟨arg, name, rfl, hSource, rfl⟩ := ofName_ok h
  simp only [arguments, List.map_singleton, Builtin.namedTree, hSource]
  refine ⟨fun _ hEvents _ _ _ => .atom ?_ (Nat.le_refl 7), fun _ _ => rfl⟩
  exact hEvents _ (List.mem_singleton_self _) _ (hAtom name)

theorem ofView_builds {uniform : String} (hView : uniform ∈ ["u_time", "u_zoom", "u_resolution"])
    (h : ofView uniform args = .ok plan) : plan.Builds (.leaf (.uniform uniform)) := by
  obtain ⟨_, rfl⟩ := ofView_ok h
  exact ⟨fun hPlain _ _ _ _ => .atom (hPlain _ (.view hView)) (Nat.le_refl 7), fun _ _ => rfl⟩

theorem ofNegation_builds (h : ofNegation args = .ok plan) :
    plan.Builds (Builtin.negationTree (arguments args)) := by
  obtain ⟨arg, rfl, _, rfl⟩ := ofNegation_ok h
  refine ⟨fun _ _ phrases hLength hFits => ?_, fun phrases hTrees => ?_⟩
  · obtain ⟨operand, rfl⟩ := List.length_eq_one_iff.mp hLength
    exact .group (.negation (hFits operand (List.mem_singleton_self _)) (by decide))
      (Nat.le_refl 7)
  · obtain ⟨operand, rfl, hOperand⟩ := List.map_eq_singleton_iff.mp hTrees
    exact congrArg SyntaxTree.not hOperand

/-- The sides of an equality are told their common types, other than colour. -/
theorem sharedHint_arguments {left right : Node} {shared : TypeSet}
    (h : Term.commonTypes .any [left.term, right.term] = .ok shared) :
    Builtin.sharedHint (arguments [left, right]) = some (shared &&& ~~~TypeSet.colour) := by
  rw [Builtin.sharedHint, terms_arguments,
    show Node.terms [left, right] = [left.term, right.term] from rfl, h]

/-- A plan for an equality builds a chain of its two sides. -/
theorem ofEquality_builds {operator : BinaryOperator} (h : ofEquality operator args = .ok plan) :
    plan.Builds (Builtin.chainTree operator
      ((arguments args).map (·.tree (Builtin.sharedHint (arguments args))))) := by
  obtain ⟨left, right, shared, rfl, hShared, _, rfl⟩ := ofEquality_ok h
  rw [sharedHint_arguments hShared, trees_arguments]
  have hCombines : Combines [left, right].length _ _ :=
    combines_chain operator (by decide : 0 < 2)
  exact hCombines.builds

def argumentPair (pair : Node × Node) : Argument × Argument :=
  (pair.1.toArgument, pair.2.toArgument)

theorem pairs_arguments (nodes : List Node) :
    Operator.pairs (arguments nodes) = (Operator.pairs nodes).map argumentPair :=
  Operator.pairs_map _ nodes

/-- The type that a call settles on is the hint for its outputs. -/
theorem outputHint_of_outputTypes {b : Builtin} {hint : Option TypeSet} {output : TypeSet}
    (h : outputTypes args (b.operator.returns (Node.terms args)) hint = .ok output) :
    b.outputHint (arguments args) hint = some output := by
  obtain ⟨types, hTypes, rfl, _⟩ := outputTypes_ok h
  rw [Builtin.outputHint, terms_arguments, hTypes]

/-- A choice may stand anywhere if its tests may stand in a conditional. -/
theorem fits_choice {test : Phrase → Phrase}
    (hTest : ∀ phrase, phrase.Fits Good 7 → (test phrase).Fits Good 1) {phrases : List Phrase}
    (hOdd : phrases.length % 2 = 1) (hFits : ∀ phrase ∈ phrases, phrase.Fits Good 7) :
    (choicePhrase test phrases).Fits Good 7 := by
  fun_induction choicePhrase test phrases with
  | case1 value candidate rest ih =>
      obtain ⟨hValue, hFits⟩ := List.forall_mem_cons.mp hFits
      obtain ⟨hCandidate, hRest⟩ := List.forall_mem_cons.mp hFits
      refine .group (.conditional (hTest _ hCandidate) (hValue.mono (by decide)) ?_) (Nat.le_refl 7)
      simp only [List.length_cons] at hOdd
      exact (ih (by omega) hRest).mono (by decide)
  | case2 fallback => exact hFits fallback (List.mem_singleton_self _)
  | case3 => cases hOdd

/-- A choice lowers two operands for each pair. -/
theorem even_length_choiceOperands (output : TypeSet) (branches : List (Node × Node)) :
    (choiceOperands output branches).length % 2 = 0 := by
  induction branches with
  | nil => rfl
  | cons pair rest ih => simp [choiceOperands, ih]

/-- The phrases of a choice are those of its arguments, backwards. -/
theorem erase_choice {test : Phrase → Phrase} {testTree : SyntaxTree Atom → SyntaxTree Atom}
    (hTest : ∀ phrase, (test phrase).erase = testTree phrase.erase) (output : TypeSet)
    (fallback : Node) (branches : List (Node × Node)) {phrases : List Phrase}
    (hTrees : phrases.map Phrase.erase =
      ((fallback, some output) :: choiceOperands output branches).map fun operand =>
        operand.1.tree operand.2) :
    (choicePhrase test phrases.reverse).erase =
      Builtin.choiceTree Argument.tree testTree (some output) fallback.toArgument
        (branches.map argumentPair) := by
  induction branches generalizing phrases with
  | nil =>
      obtain ⟨phrase, rfl, hPhrase⟩ := List.map_eq_singleton_iff.mp hTrees
      exact hPhrase
  | cons pair rest ih =>
      obtain ⟨candidate, value⟩ := pair
      rw [choiceOperands, ← List.cons_append, List.map_append] at hTrees
      obtain ⟨earlier, last, rfl, hEarlier, hLast⟩ := List.map_eq_append_iff.mp hTrees
      obtain ⟨candidatePhrase, rest', rfl, hCandidate, hLast⟩ := List.map_eq_cons_iff.mp hLast
      obtain ⟨valuePhrase, rfl, hValue⟩ := List.map_eq_singleton_iff.mp hLast
      rw [List.reverse_append]
      show SyntaxTree.conditional (test candidatePhrase).erase valuePhrase.erase
        (choicePhrase test earlier.reverse).erase = _
      rw [hTest, hCandidate, hValue, ih hEarlier]
      rfl

theorem getLast?_arguments {fallback : Node} (h : args.getLast? = some fallback) :
    (arguments args).getLast? = some fallback.toArgument := by
  rw [arguments, List.getLast?_map, h, Option.map_some]

theorem pairs_dropLast_arguments (nodes : List Node) :
    Operator.pairs (arguments nodes).dropLast =
      (Operator.pairs nodes.dropLast).map argumentPair := by
  rw [arguments, ← List.map_dropLast, ← arguments, pairs_arguments]

/-- The tree of a match whose outputs have one type. -/
theorem matchTree_arguments {input fallback : Node} {rest : List Node} {hint : Option TypeSet}
    {output : TypeSet} (hLast : (input :: rest).getLast? = some fallback)
    (hOutput : outputTypes (input :: rest) (Operator.Match.returns (Node.terms (input :: rest)))
      hint = .ok output) :
    Builtin.matching.tree (arguments (input :: rest)) hint =
      Builtin.choiceTree Argument.tree (.binary .equal (input.tree none)) (some output)
        fallback.toArgument ((Operator.pairs rest.dropLast).map argumentPair) := by
  show Builtin.matchTree (Builtin.matching.outputHint (arguments (input :: rest)) hint)
    (arguments (input :: rest)) = _
  rw [outputHint_of_outputTypes hOutput]
  unfold Builtin.matchTree
  rw [getLast?_arguments hLast]
  exact congrArg (Builtin.choiceTree Argument.tree _ _ _) (pairs_dropLast_arguments rest)

theorem ofMatch_builds {hint : Option TypeSet} (h : ofMatch args hint = .ok plan) :
    plan.Builds (Builtin.matching.tree (arguments args) hint) := by
  obtain ⟨input, rest, fallback, output, rfl, _, hLast, hOutput, rfl⟩ := ofMatch_ok h
  rw [matchTree_arguments hLast hOutput]
  have hEven := even_length_choiceOperands output (Operator.pairs rest.dropLast)
  refine ⟨fun _ _ phrases hLength hFits => ?_, fun phrases hTrees => ?_⟩
  · cases phrases with
    | nil => cases hLength
    | cons inputPhrase phrases =>
        simp only [List.length_cons] at hLength
        obtain ⟨hInput, hFits⟩ := List.forall_mem_cons.mp hFits
        refine fits_choice (fun phrase hPhrase => ?_) (by rw [List.length_reverse]; omega)
          fun phrase hPhrase => hFits phrase (List.mem_reverse.mp hPhrase)
        exact .binary (hInput.mono (by decide)) (hPhrase.mono (by decide)) (by decide)
  · obtain ⟨inputPhrase, phrases, rfl, hInput, hTrees⟩ := List.map_eq_cons_iff.mp hTrees
    refine erase_choice (fun phrase => ?_) output fallback _ hTrees
    exact congrArg (SyntaxTree.binary .equal · phrase.erase) hInput

/-- The tree of a case whose outputs have one type. -/
theorem caseTree_arguments {fallback : Node} {hint : Option TypeSet} {output : TypeSet}
    (hLast : args.getLast? = some fallback)
    (hOutput : outputTypes args (Operator.Case.returns (Node.terms args)) hint = .ok output) :
    Builtin.casewise.tree (arguments args) hint =
      Builtin.choiceTree Argument.tree id (some output) fallback.toArgument
        ((Operator.pairs args.dropLast).map argumentPair) := by
  show Builtin.caseTree (Builtin.casewise.outputHint (arguments args) hint) (arguments args) = _
  rw [outputHint_of_outputTypes hOutput, Builtin.caseTree, getLast?_arguments hLast]
  exact congrArg (Builtin.choiceTree Argument.tree _ _ _) (pairs_dropLast_arguments args)

theorem ofCase_builds {hint : Option TypeSet} (h : ofCase args hint = .ok plan) :
    plan.Builds (Builtin.casewise.tree (arguments args) hint) := by
  obtain ⟨fallback, output, _, hLast, hOutput, rfl⟩ := ofCase_ok h
  rw [caseTree_arguments hLast hOutput]
  have hEven := even_length_choiceOperands output (Operator.pairs args.dropLast)
  refine ⟨fun _ _ phrases hLength hFits => ?_, fun phrases hTrees => ?_⟩
  · simp only [List.length_cons] at hLength
    exact fits_choice (fun phrase hPhrase => hPhrase.mono (by decide))
      (by rw [List.length_reverse]; omega)
      fun phrase hPhrase => hFits phrase (List.mem_reverse.mp hPhrase)
  · exact erase_choice (fun _ => rfl) output fallback _ hTrees

theorem fits_segment (hPlain : ∀ a : Atom, a.IsPlain → Good a)
    {input power below above low high : Phrase} (hInput : input.Fits Good 7)
    (hPower : power.Fits Good 7) (hBelow : below.Fits Good 7) (hAbove : above.Fits Good 7)
    (hLow : low.Fits Good 7) (hHigh : high.Fits Good 7) :
    (segmentPhrase input power below above low high).Fits Good 7 := by
  have hSubtract : ∀ {left right : Phrase}, left.Fits Good 7 → right.Fits Good 7 →
      (Phrase.group (.binary .subtract left right)).Fits Good 7 := fun hLeft hRight =>
    .group (.binary (hLeft.mono (by decide)) (hRight.mono (by decide)) (by decide)) (Nat.le_refl 7)
  have hPosition : (Phrase.binary .divide (.group (.binary .subtract input low))
      (.group (.binary .subtract high low))).Fits Good 0 :=
    .binary ((hSubtract hInput hLow).mono (by decide)) (hSubtract hHigh hLow) (by decide)
  have hClamp : (Phrase.call "clamp" [.binary .divide (.group (.binary .subtract input low))
      (.group (.binary .subtract high low)),
      .atom (.numeral "0.0"), .atom (.numeral "1.0")]).Fits Good 0 := by
    refine .call (by constructor <;> decide) (List.cons_ne_nil _ _) ?_ (by decide)
    simp only [List.mem_cons, List.not_mem_nil, or_false, forall_eq_or_imp, forall_eq]
    exact ⟨hPosition, fits_numeral hPlain (by decide) (by decide),
      fits_numeral hPlain (by decide) (by decide)⟩
  refine .call (by constructor <;> decide) (List.cons_ne_nil _ _) ?_ (Nat.le_refl 7)
  simp only [List.mem_cons, List.not_mem_nil, or_false, forall_eq_or_imp, forall_eq]
  refine ⟨hBelow.mono (by decide), hAbove.mono (by decide),
    .call (by constructor <;> decide) (List.cons_ne_nil _ _) ?_ (by decide)⟩
  simp only [List.mem_cons, List.not_mem_nil, or_false, forall_eq_or_imp, forall_eq]
  exact ⟨hClamp, hPower.mono (by decide)⟩

/-- A segment has the tree of a segment. -/
theorem erase_segment (input power below above low high : Phrase) :
    (segmentPhrase input power below above low high).erase =
      Builtin.segmentTree id input.erase power.erase below.erase above.erase low.erase
        high.erase :=
  rfl

theorem fits_ramp (hPlain : ∀ a : Atom, a.IsPlain → Good a) {input power below : Phrase}
    {phrases : List Phrase} (hInput : input.Fits Good 7) (hPower : power.Fits Good 7)
    (hBelow : below.Fits Good 7) (hFits : ∀ phrase ∈ phrases, phrase.Fits Good 7) :
    (rampPhrase input power below phrases).Fits Good 7 := by
  fun_induction rampPhrase input power below phrases with
  | case1 below low high above rest ih =>
      obtain ⟨hLow, hFits⟩ := List.forall_mem_cons.mp hFits
      obtain ⟨hHigh, hFits⟩ := List.forall_mem_cons.mp hFits
      obtain ⟨hAbove, hRest⟩ := List.forall_mem_cons.mp hFits
      exact ih (fits_segment hPlain hInput hPower hBelow hAbove hLow hHigh) hRest
  | case2 => exact hBelow

/-- The phrases of the segments after a stop, and their trees. -/
theorem erase_ramp {input power : Phrase} (output : TypeSet) {below : Phrase} (start : Node)
    (stops : List (Node × Node)) {phrases : List Phrase}
    (hTrees : phrases.map Phrase.erase =
      (rampOperands output start stops).map fun operand => operand.1.tree operand.2) :
    (rampPhrase input power below phrases).erase =
      Builtin.rampTree Argument.tree id input.erase power.erase (some output) below.erase
        start.toArgument (stops.map argumentPair) := by
  induction stops generalizing below start phrases with
  | nil =>
      rw [List.map_eq_nil_iff.mp hTrees]
      rfl
  | cons pair rest ih =>
      obtain ⟨stop, value⟩ := pair
      obtain ⟨low, phrases, rfl, hLow, hTrees⟩ := List.map_eq_cons_iff.mp hTrees
      obtain ⟨high, phrases, rfl, hHigh, hTrees⟩ := List.map_eq_cons_iff.mp hTrees
      obtain ⟨above, phrases, rfl, hAbove, hTrees⟩ := List.map_eq_cons_iff.mp hTrees
      rw [rampPhrase, ih stop hTrees, erase_segment, hLow, hHigh, hAbove]
      rfl

/-- The tree of an interpolation whose outputs have one type. -/
theorem interpolationTree_arguments {kind input : Node} {stops : List Node} {power : Float}
    {hint : Option TypeSet} {output : TypeSet}
    (hPower : Operator.Interpolate.exponent kind.term = .ok power)
    (hOutput : outputTypes (kind :: input :: stops)
      (Operator.Interpolate.returns (Node.terms (kind :: input :: stops))) hint = .ok output) :
    Builtin.interpolate.tree (arguments (kind :: input :: stops)) hint =
      Builtin.blendTree Argument.tree id input.toArgument power (some output)
        ((Operator.pairs stops).map argumentPair) := by
  show Builtin.interpolationTree
    (Builtin.interpolate.outputHint (arguments (kind :: input :: stops)) hint)
    (kind.toArgument :: input.toArgument :: arguments stops) = _
  rw [outputHint_of_outputTypes hOutput, Builtin.interpolationTree_of_eases _
    (Operator.Interpolate.eases_of_exponent hPower), pairs_arguments]

/-- A plan for an interpolation builds its tree. -/
theorem ofInterpolation_builds {hint : Option TypeSet} (h : ofInterpolation args hint = .ok plan) :
    plan.Builds (Builtin.interpolate.tree (arguments args) hint) := by
  obtain ⟨kind, input, stops, power, output, start, first, stop, value, rest, rfl, _, hPower,
    hOutput, hPairs, rfl⟩ := ofInterpolation_ok h
  rw [interpolationTree_arguments hPower hOutput, hPairs]
  refine ⟨fun hPlain _ phrases hLength hFits => ?_, fun phrases hTrees => ?_⟩
  · have hPowerFits : (Phrase.atom (.number power)).Fits _ 7 :=
      .atom (hPlain _ (.number power)) (Nat.le_refl 7)
    obtain ⟨inputPhrase, phrases, rfl⟩ := List.exists_of_length_succ phrases hLength
    replace hLength := Nat.succ.inj hLength
    obtain ⟨low, phrases, rfl⟩ := List.exists_of_length_succ phrases hLength
    replace hLength := Nat.succ.inj hLength
    obtain ⟨below, phrases, rfl⟩ := List.exists_of_length_succ phrases hLength
    replace hLength := Nat.succ.inj hLength
    obtain ⟨high, phrases, rfl⟩ := List.exists_of_length_succ phrases hLength
    obtain ⟨above, phrases, rfl⟩ := List.exists_of_length_succ phrases (Nat.succ.inj hLength)
    obtain ⟨hInput, hFits⟩ := List.forall_mem_cons.mp hFits
    obtain ⟨hLow, hFits⟩ := List.forall_mem_cons.mp hFits
    obtain ⟨hBelow, hFits⟩ := List.forall_mem_cons.mp hFits
    obtain ⟨hHigh, hFits⟩ := List.forall_mem_cons.mp hFits
    obtain ⟨hAbove, hRest⟩ := List.forall_mem_cons.mp hFits
    exact fits_ramp hPlain hInput hPowerFits
      (fits_segment hPlain hInput hPowerFits hBelow hAbove hLow hHigh) hRest
  · obtain ⟨inputPhrase, phrases, rfl, hInput, hTrees⟩ := List.map_eq_cons_iff.mp hTrees
    obtain ⟨low, phrases, rfl, hLow, hTrees⟩ := List.map_eq_cons_iff.mp hTrees
    obtain ⟨below, phrases, rfl, hBelow, hTrees⟩ := List.map_eq_cons_iff.mp hTrees
    obtain ⟨high, phrases, rfl, hHigh, hTrees⟩ := List.map_eq_cons_iff.mp hTrees
    obtain ⟨above, phrases, rfl, hAbove, hTrees⟩ := List.map_eq_cons_iff.mp hTrees
    show (rampPhrase inputPhrase (.atom (.number power)) _ phrases).erase = _
    rw [erase_ramp output stop rest hTrees, erase_segment, hInput, hLow, hBelow, hHigh, hAbove]
    rfl

end Plan

/-- Every plan builds what the operator table prescribes. -/
theorem Builtin.plan_builds {b : Builtin} {args : List Node} {hint : Option TypeSet} {plan : Plan}
    (h : b.plan args hint = .ok plan) : plan.Builds (b.tree (Plan.arguments args) hint) := by
  cases b with
  | get => exact Plan.ofName_builds (fun _ => rfl) h
  | var => exact Plan.ofName_builds (fun _ => rfl) h
  | time => exact Plan.ofView_builds (by decide) h
  | zoom => exact Plan.ofView_builds (by decide) h
  | resolution => exact Plan.ofView_builds (by decide) h
  | multiply => exact Plan.ofNumericChain_builds h
  | divide => exact Plan.ofCount_builds h (Plan.combines_chain _ (by decide))
  | add => exact Plan.ofNumericChain_builds h
  | subtract => exact Plan.ofCount_builds h (Plan.combines_chain _ (by decide))
  | clamp =>
      exact Plan.ofCount_builds h (Plan.combines_call (by constructor <;> decide) (by decide))
  | modulo =>
      exact Plan.ofCount_builds h (Plan.combines_call (by constructor <;> decide) (by decide))
  | power =>
      exact Plan.ofCount_builds h (Plan.combines_call (by constructor <;> decide) (by decide))
  | abs => exact Plan.ofCount_builds h (Plan.combines_call (by constructor <;> decide) (by decide))
  | floor =>
      exact Plan.ofCount_builds h (Plan.combines_call (by constructor <;> decide) (by decide))
  | round => exact Plan.ofCount_builds h Plan.combines_round
  | ceil => exact Plan.ofCount_builds h (Plan.combines_call (by constructor <;> decide) (by decide))
  | sin => exact Plan.ofCount_builds h (Plan.combines_call (by constructor <;> decide) (by decide))
  | cos => exact Plan.ofCount_builds h (Plan.combines_call (by constructor <;> decide) (by decide))
  | atan =>
      exact Plan.ofRange_builds h fun _ hLeast _ =>
        Plan.combines_call (by constructor <;> decide) (Nat.lt_of_lt_of_le (by decide) hLeast)
  | greater => exact Plan.ofCount_builds h (Plan.combines_chain _ (by decide))
  | greaterOrEqual => exact Plan.ofCount_builds h (Plan.combines_chain _ (by decide))
  | less => exact Plan.ofCount_builds h (Plan.combines_chain _ (by decide))
  | lessOrEqual => exact Plan.ofCount_builds h (Plan.combines_chain _ (by decide))
  | equal => exact Plan.ofEquality_builds h
  | notEqual => exact Plan.ofEquality_builds h
  | not => exact Plan.ofNegation_builds h
  | all => exact Plan.ofBooleanChain_builds h
  | any => exact Plan.ofBooleanChain_builds h
  | between => exact Plan.ofCount_builds h Plan.combines_between
  | array =>
      have hBuilds := Plan.ofRange_builds h fun _ => Plan.combines_vector
      exact hBuilds
  | colour => exact Plan.ofRange_builds h fun _ => Plan.combines_colour
  | interpolate => exact Plan.ofInterpolation_builds h
  | matching => exact Plan.ofMatch_builds h
  | casewise => exact Plan.ofCase_builds h

end PointStyle
