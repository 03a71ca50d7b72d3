import PointStyle.Proofs.Operator.Typing

/-! Calls whose arguments are typed are typed themselves, operator by operator. Operators that ask
for numbers or truth values get them; the sides of an equality settle on one type; and the outputs
of a call that chooses are all lowered as the one type that they share and that the hint leaves. -/
namespace PointStyle

open Lowering Glsl

namespace Operator

variable {α β : Type}

/-- The input of a match and the candidates that it is compared with. -/
def Match.compared (args : List α) : List α :=
  args.take 1 ++ (pairs (args.drop 1).dropLast).map (·.1)

/-- The input of an interpolation and the stops that it moves between. -/
def Interpolate.places (args : List α) : List α :=
  (args.drop 1).take 1 ++ (pairs (args.drop 2)).map (·.1)

theorem Match.compared_map (f : α → β) (args : List α) :
    compared (args.map f) = (compared args).map f := by
  rw [compared, compared, ← List.map_take, ← List.map_drop, ← List.map_dropLast, pairs_map,
    List.map_append, List.map_map, List.map_map]
  rfl

theorem Interpolate.places_map (f : α → β) (args : List α) :
    places (args.map f) = (places args).map f := by
  rw [places, places, ← List.map_drop, ← List.map_take, ← List.map_drop, pairs_map,
    List.map_append, List.map_map, List.map_map]
  rfl

end Operator

namespace Builtin

/-- Whether calls of the operator are scalar when their arguments are. -/
def isScalar : Builtin → Bool
  | .get | .var | .array | .interpolate | .matching => false
  | _ => true

/-- The tree of the call has a type that suits what is inferred for the call. -/
def IsTypedAt (b : Builtin) (args : List Node) (hint : Option TypeSet) : Prop :=
  ∃ types type, b.operator.returns (Node.terms args) = .ok types ∧ Suits types hint type ∧
    (b.tree (Plan.arguments args) hint).type? Atom.type? = some type

/-- A call of one type is typed if its tree has that type. -/
theorem IsTypedAt.of_single {b : Builtin} {args : List Node} {hint : Option TypeSet} (t : ValueType)
    {type : DataType} (hReturns : b.operator.returns (Node.terms args) = .ok (.single t))
    (hType : t.dataType? = some type)
    (hTree : (b.tree (Plan.arguments args) hint).type? Atom.type? = some type) :
    b.IsTypedAt args hint :=
  ⟨_, type, hReturns, .single hint hType, hTree⟩

end Builtin

namespace Plan

variable {args : List Node} {hint : Option TypeSet} {plan : Plan} {phrase : Phrase}
  {build : List Phrase → Phrase}

/-- The operands of a plan that succeeds can all be lowered. -/
theorem lowers_of_ok (h : plan.script.outcome = .ok phrase) :
    ∀ operand ∈ plan.operands, operand.1.Lowers operand.2 := by
  intro operand hOperand
  exact ⟨_, ((script_ok h).2 operand hOperand).1⟩

section Operands

variable (hTyped : ∀ arg ∈ args, arg.IsTyped) (hOk : plan.script.outcome = .ok phrase)

include hTyped hOk

/-- The arguments of a plan for numbers are floats. -/
theorem ofNumbers_areFloats (h : ofNumbers args build = .ok plan) :
    Builtin.AreFloats args.length ((arguments args).map (·.tree (some .number))) := by
  obtain ⟨hNumbers, rfl⟩ := ofNumbers_ok h
  rw [trees_arguments]
  refine ⟨List.length_map _, fun tree hTree => ?_⟩
  obtain ⟨arg, hArg, rfl⟩ := List.mem_map.mp hTree
  have hHas := Term.has_of_requireNumbers hNumbers arg.term (List.mem_map_of_mem hArg)
  have hLowers := lowers_of_ok hOk (arg, some .number) (List.mem_map_of_mem hArg)
  obtain ⟨type, hType, hOwn⟩ := (hTyped arg hArg).asked hHas hLowers
  cases hType
  exact hOwn

theorem ofCount_areFloats {count : Nat} (h : ofCount count args build = .ok plan) :
    Builtin.AreFloats count ((arguments args).map (·.tree (some .number))) := by
  obtain ⟨rfl, hPlan⟩ := ofCount_ok h
  exact ofNumbers_areFloats hTyped hOk hPlan

theorem ofRange_areFloats {least most : Nat} (h : ofRange least most args build = .ok plan) :
    ∃ count, least ≤ count ∧ count ≤ most ∧
      Builtin.AreFloats count ((arguments args).map (·.tree (some .number))) := by
  obtain ⟨hLeast, hMost, hPlan⟩ := ofRange_ok h
  exact ⟨args.length, hLeast, hMost, ofNumbers_areFloats hTyped hOk hPlan⟩

/-- A chain of numbers is a float. -/
theorem ofNumericChain_type {operator : BinaryOperator}
    (h : ofNumericChain operator args = .ok plan)
    (hOperator : operator.type? .float .float = some .float) :
    (Builtin.chainTree operator ((arguments args).map (·.tree (some .number)))).type? Atom.type? =
      some .float := by
  obtain ⟨hCount, hPlan⟩ := ofNumericChain_ok h
  exact (ofNumbers_areFloats hTyped hOk hPlan).chain (by omega) hOperator

theorem ofBooleanChain_type {operator : BinaryOperator}
    (h : ofBooleanChain operator args = .ok plan)
    (hOperator : operator.type? .bool .bool = some .bool) :
    (Builtin.chainTree operator ((arguments args).map (·.tree (some .boolean)))).type? Atom.type? =
      some .bool := by
  obtain ⟨hCount, hBooleans, rfl⟩ := ofBooleanChain_ok h
  rw [trees_arguments]
  refine Builtin.type?_chainTree hOperator ?_ fun tree hTree => ?_
  · exact List.ne_nil_of_length_pos (by rw [List.length_map]; omega)
  · obtain ⟨arg, hArg, rfl⟩ := List.mem_map.mp hTree
    have hHas := Term.has_of_requireBooleans hBooleans arg.term (List.mem_map_of_mem hArg)
    have hLowers := lowers_of_ok hOk (arg, some .boolean) (List.mem_map_of_mem hArg)
    obtain ⟨type, hType, hOwn⟩ := (hTyped arg hArg).asked hHas hLowers
    cases hType
    exact hOwn

theorem ofNegation_type (h : ofNegation args = .ok plan) :
    (Builtin.negationTree (arguments args)).type? Atom.type? = some .bool := by
  obtain ⟨arg, rfl, hBoolean, rfl⟩ := ofNegation_ok h
  have hLowers := lowers_of_ok hOk (arg, none) (List.mem_singleton_self _)
  have hArg := (hTyped arg (List.mem_singleton_self _)).bool_of_unasked
    (Term.has_of_requireBoolean hBoolean) hLowers
  exact SyntaxTree.type?_not_eq_some.mpr ⟨hArg, rfl⟩

/-- The sides of an equality settle on the same type, be it that of colours. -/
theorem ofEquality_type {operator : BinaryOperator} (h : ofEquality operator args = .ok plan)
    (hOperator : ∀ used, operator.type? used used = some .bool) :
    (Builtin.chainTree operator
      ((arguments args).map (·.tree (Builtin.sharedHint (arguments args))))).type? Atom.type? =
      some .bool := by
  obtain ⟨left, right, shared, rfl, hShared, hEmpty, rfl⟩ := ofEquality_ok h
  obtain ⟨_, hWider⟩ := Term.commonTypes_ok hShared
  have hSides : ∀ side ∈ [left, right], ∃ wider type, (∀ t ∈ shared, t ∈ wider) ∧
      Suits wider (some (shared &&& ~~~TypeSet.colour)) type ∧
      (side.tree (some (shared &&& ~~~TypeSet.colour))).type? Atom.type? = some type := by
    intro side hSide
    have hTerm : side.term ∈ [left, right].map (·.term) := List.mem_map_of_mem hSide
    obtain ⟨wider, hTypes, hSubset⟩ := hWider side.term hTerm
    have hLowers := lowers_of_ok hOk (side, _) (List.mem_map_of_mem hSide)
    obtain ⟨type, hSuits, hTree⟩ := (hTyped side hSide).exists_suits hLowers hTypes
    exact ⟨wider, type, hSubset, hSuits, hTree⟩
  obtain ⟨wider, used, hSubset, hSuits, _⟩ := hSides left (by simp)
  obtain ⟨t, hMem, hOthers⟩ := hSuits.exists_shared hSubset hEmpty
  have hSettled : ∀ {wider : TypeSet} {type : DataType}, (∀ t ∈ shared, t ∈ wider) →
      Suits wider (some (shared &&& ~~~TypeSet.colour)) type → t.dataType? = some type := by
    intro wider type hSubset hSuits
    refine hSuits.dataType_eq (hSubset t hMem) nofun fun hinted hEq => ?_
    cases hEq
    exact hOthers
  rw [sharedHint_arguments hShared, trees_arguments]
  refine Builtin.type?_pairTree (hOperator used) rfl fun tree hTree => ?_
  obtain ⟨side, hSide, rfl⟩ := List.mem_map.mp hTree
  obtain ⟨_, type, hSideSubset, hSideSuits, hSideTree⟩ := hSides side hSide
  have hSame := (hSettled hSideSubset hSideSuits).symm.trans (hSettled hSubset hSuits)
  rw [hSideTree, hSame]

end Operands

/-- Outputs lowered as the one type that they share have it in the program, and it suits what is
inferred for the call. -/
theorem outputs_typed {outputs : List Node} {terms : List Term} {start output : TypeSet}
    (hNonempty : outputs ≠ [])
    (hOutputs : ∀ node ∈ outputs, node.IsTyped ∧ node.term ∈ terms ∧ node.Lowers (some output))
    (hOutput : outputTypes args (Term.commonTypes start terms) hint = .ok output) :
    ∃ own t type, Term.commonTypes start terms = .ok own ∧ t ∈ start ∧ t.dataType? = some type ∧
      Suits own hint type ∧
      ∀ node ∈ outputs, (node.tree (some output)).type? Atom.type? = some type := by
  obtain ⟨own, hOwn, hNarrow, hUnique⟩ := outputTypes_ok hOutput
  obtain ⟨t, rfl⟩ := TypeSet.exists_eq_single hUnique
  obtain ⟨hStart, hWider⟩ := Term.commonTypes_ok hOwn
  have hMem : t ∈ own := by
    have hBoth : t ∈ Operator.narrow own hint := hNarrow ▸ TypeSet.mem_single.mpr rfl
    exact ((TypeSet.mem_and t own _).mp hBoth).1
  have hAsked : ∀ node ∈ outputs, ∃ type, t.dataType? = some type ∧
      (node.tree (some (.single t))).type? Atom.type? = some type := by
    intro node hNode
    obtain ⟨hTyped, hTerm, hLowers⟩ := hOutputs node hNode
    obtain ⟨wider, hTypes, hSubset⟩ := hWider node.term hTerm
    exact hTyped.asked ⟨wider, hTypes, hSubset t hMem⟩ hLowers
  -- Any output tells the type of all and what the call may be settled as.
  obtain ⟨first, hFirst⟩ := List.exists_mem_of_ne_nil outputs hNonempty
  obtain ⟨type, hType, _⟩ := hAsked first hFirst
  obtain ⟨hTyped, hTerm, hLowers⟩ := hOutputs first hFirst
  obtain ⟨wider, hTypes, hSubset⟩ := hWider first.term hTerm
  obtain ⟨_, hSuits, _⟩ := hTyped.exists_suits hLowers hTypes
  refine ⟨own, t, type, hOwn, hStart t hMem, hType, hSuits.of_narrow hSubset hNarrow.symm hType, ?_⟩
  intro node hNode
  obtain ⟨other, hOther, hTree⟩ := hAsked node hNode
  rw [hTree, ← hOther, hType]

/-- The outputs of pairs are every other argument. -/
theorem term_mem_everyOther {nodes : List Node} {pair : Node × Node}
    (h : pair ∈ Operator.pairs nodes) :
    pair.2.term ∈ Operator.everyOther ((Node.terms nodes).drop 1) := by
  have hPair : termPair pair ∈ Operator.pairs (Node.terms nodes) := by
    rw [pairs_terms]
    exact List.mem_map_of_mem h
  exact Operator.mem_everyOther_of_mem_pairs hPair

/-- A choice whose tests are truth values has the type of its outputs. -/
theorem choice_typed (test : SyntaxTree Atom → SyntaxTree Atom) {nodes : List Node}
    {fallback : Node}
    {output : TypeSet} (hTyped : ∀ node ∈ nodes, node.IsTyped)
    (hFallback : fallback.IsTyped)
    (hOutput : outputTypes args (Term.commonTypes .any
      (Operator.everyOther ((Node.terms nodes).drop 1) ++ [fallback.term])) hint = .ok output)
    (hLowers : ∀ operand ∈
      (fallback, some output) :: choiceOperands output (Operator.pairs nodes.dropLast),
      operand.1.Lowers operand.2)
    (hTests : ∀ pair ∈ Operator.pairs nodes.dropLast,
      (test (pair.1.tree none)).type? Atom.type? = some .bool) :
    ∃ own type, Term.commonTypes .any
        (Operator.everyOther ((Node.terms nodes).drop 1) ++ [fallback.term]) = .ok own ∧
      Suits own hint type ∧
      (Builtin.choiceTree Argument.tree test (some output) fallback.toArgument
        ((Operator.pairs nodes.dropLast).map argumentPair)).type? Atom.type? = some type := by
  obtain ⟨hFallbackLowers, hLowers⟩ := List.forall_mem_cons.mp hLowers
  have hValues : ∀ node ∈ (Operator.pairs nodes.dropLast).map (·.2), node.IsTyped ∧
      node.term ∈ Operator.everyOther ((Node.terms nodes).drop 1) ++ [fallback.term] ∧
      node.Lowers (some output) := by
    intro node hNode
    obtain ⟨pair, hPair, rfl⟩ := List.mem_map.mp hNode
    have hWhole := Operator.mem_pairs_of_dropLast hPair
    refine ⟨hTyped _ (Operator.mem_of_mem_pairs hWhole).2,
      List.mem_append_left _ (term_mem_everyOther hWhole), ?_⟩
    exact hLowers (pair.2, some output) (mem_choiceOperands.mpr ⟨pair, hPair, .inr rfl⟩)
  have hOutputs := List.forall_mem_cons.mpr
    ⟨⟨hFallback, List.mem_append_right _ (List.mem_singleton_self _), hFallbackLowers⟩, hValues⟩
  obtain ⟨own, _, type, hOwn, _, _, hSuits, hTrees⟩ :=
    outputs_typed (List.cons_ne_nil _ _) hOutputs hOutput
  obtain ⟨hFallbackTree, hTrees⟩ := List.forall_mem_cons.mp hTrees
  refine ⟨own, type, hOwn, hSuits, Builtin.type?_choiceTree hFallbackTree fun branch hBranch => ?_⟩
  obtain ⟨pair, hPair, rfl⟩ := List.mem_map.mp hBranch
  exact ⟨hTests pair hPair, hTrees pair.2 (List.mem_map_of_mem hPair)⟩

/-- A case whose arguments are typed is typed. -/
theorem ofCase_typed (hTyped : ∀ arg ∈ args, arg.IsTyped) (hOk : plan.script.outcome = .ok phrase)
    (h : ofCase args hint = .ok plan) : Builtin.casewise.IsTypedAt args hint := by
  have hConditions := Term.has_of_requireBooleans (ofCase_conditions h)
  obtain ⟨fallback, output, _, hLast, hOutput, rfl⟩ := ofCase_ok h
  have hLowers := lowers_of_ok hOk
  have hReturns : Operator.Case.returns (Node.terms args) = Term.commonTypes .any
      (Operator.everyOther ((Node.terms args).drop 1) ++ [fallback.term]) := by
    rw [Operator.Case.returns, getLast?_terms, hLast]
    rfl
  have hFallback := hTyped fallback (List.mem_of_getLast? hLast)
  have hTests : ∀ pair ∈ Operator.pairs args.dropLast,
      (id (pair.1.tree none)).type? Atom.type? = some .bool := by
    intro pair hPair
    have hCondition := (Operator.mem_of_mem_pairs hPair).1
    have hOperand : (pair.1, none) ∈ choiceOperands output (Operator.pairs args.dropLast) :=
      mem_choiceOperands.mpr ⟨pair, hPair, .inl rfl⟩
    exact (hTyped _ (List.dropLast_subset _ hCondition)).bool_of_unasked
      (hConditions _ (List.mem_map_of_mem hPair)) (hLowers _ (List.mem_cons_of_mem _ hOperand))
  obtain ⟨own, type, hOwn, hSuits, hTree⟩ :=
    choice_typed id hTyped hFallback (hReturns ▸ hOutput) hLowers hTests
  refine ⟨own, type, hReturns.trans hOwn, hSuits, ?_⟩
  rw [caseTree_arguments hLast hOutput]
  exact hTree

/-- A match whose arguments are typed is typed if it compares numbers or strings. -/
theorem ofMatch_typed (hTyped : ∀ arg ∈ args, arg.IsTyped)
    (hCompared : ∀ node ∈ Operator.Match.compared args,
      node.term.Has .number ∨ node.term.Has .string)
    (hOk : plan.script.outcome = .ok phrase) (h : ofMatch args hint = .ok plan) :
    Builtin.matching.IsTypedAt args hint := by
  obtain ⟨input, rest, fallback, output, rfl, _, hLast, hOutput, rfl⟩ := ofMatch_ok h
  obtain ⟨hInputLowers, hLowers⟩ := List.forall_mem_cons.mp (lowers_of_ok hOk)
  obtain ⟨hInput, hCandidates⟩ := List.forall_mem_cons.mp hCompared
  obtain ⟨hInputTyped, hRest⟩ := List.forall_mem_cons.mp hTyped
  have hReturns : Operator.Match.returns (Node.terms (input :: rest)) = Term.commonTypes .any
      (Operator.everyOther ((Node.terms rest).drop 1) ++ [fallback.term]) := by
    rw [Operator.Match.returns, getLast?_terms, hLast]
    rfl
  have hInputTree := hInputTyped.float_of_unasked hInput hInputLowers
  have hFallback := hTyped fallback (List.mem_of_getLast? hLast)
  have hTests : ∀ pair ∈ Operator.pairs rest.dropLast,
      (SyntaxTree.binary .equal (input.tree none) (pair.1.tree none)).type? Atom.type? =
        some .bool := by
    intro pair hPair
    have hCandidate := (Operator.mem_of_mem_pairs hPair).1
    have hOperand : (pair.1, none) ∈ choiceOperands output (Operator.pairs rest.dropLast) :=
      mem_choiceOperands.mpr ⟨pair, hPair, .inl rfl⟩
    have hCandidateTree := (hRest _ (List.dropLast_subset _ hCandidate)).float_of_unasked
      (hCandidates _ (List.mem_map_of_mem hPair)) (hLowers _ (List.mem_cons_of_mem _ hOperand))
    exact SyntaxTree.type?_binary_eq_some.mpr ⟨_, _, hInputTree, hCandidateTree, rfl⟩
  obtain ⟨own, type, hOwn, hSuits, hTree⟩ :=
    choice_typed (.binary .equal (input.tree none)) hRest hFallback
      (hReturns ▸ hOutput) hLowers hTests
  refine ⟨own, type, hReturns.trans hOwn, hSuits, ?_⟩
  rw [matchTree_arguments hLast hOutput]
  exact hTree

/-- Every stop is lowered without a hint, and every output under the hint of all. -/
theorem mem_stopOperands (output : TypeSet) (input : Node) {start first stop value : Node}
    {rest : List (Node × Node)} {pair : Node × Node}
    (h : pair ∈ (start, first) :: (stop, value) :: rest) :
    ∀ operand ∈ [(pair.1, none), (pair.2, some output)],
      operand ∈ (input, none) :: (start, none) :: (first, some output) :: (stop, none) ::
        (value, some output) :: rampOperands output stop rest := by
  simp only [List.mem_cons, List.not_mem_nil, or_false, forall_eq_or_imp, forall_eq] at h ⊢
  rcases h with rfl | rfl | h
  · simp
  · simp
  · obtain ⟨hStop, hValue⟩ := mem_rampOperands output stop h
    simp [hStop, hValue]

/-- An interpolation whose arguments are typed is typed if it moves between numbers. -/
theorem ofInterpolation_typed (hTyped : ∀ arg ∈ args.drop 1, arg.IsTyped)
    (hPlaces : ∀ node ∈ Operator.Interpolate.places args, node.term.types = .ok .number)
    (hOk : plan.script.outcome = .ok phrase) (h : ofInterpolation args hint = .ok plan) :
    Builtin.interpolate.IsTypedAt args hint := by
  obtain ⟨kind, input, stops, power, output, start, first, stop, value, rest, rfl, _, hPower,
    hOutput, hPairs, rfl⟩ := ofInterpolation_ok h
  have hLowers := lowers_of_ok hOk
  obtain ⟨hInputTyped, hStopsTyped⟩ := List.forall_mem_cons.mp hTyped
  obtain ⟨hInput, hStops⟩ := List.forall_mem_cons.mp hPlaces
  have hNumber : ∀ node : Node, node.IsTyped → node.term.types = .ok .number → node.Lowers none →
      (node.tree none).type? Atom.type? = some .float := by
    intro node hNode hTypes hNodeLowers
    exact hNode.float_of_unasked (.inl ⟨.number, hTypes, by decide⟩) hNodeLowers
  have hInputTree :=
    hNumber input hInputTyped hInput (hLowers (input, none) (List.mem_cons_self ..))
  have hStopTrees : ∀ pair ∈ Operator.pairs stops,
      (pair.1.tree none).type? Atom.type? = some .float := by
    intro pair hPair
    have hOperand := mem_stopOperands output input (hPairs ▸ hPair) (pair.1, none) (by simp)
    exact hNumber pair.1 (hStopsTyped _ (Operator.mem_of_mem_pairs hPair).1)
      (hStops _ (List.mem_map_of_mem hPair)) (hLowers _ hOperand)
  have hOutputs : ∀ node ∈ (Operator.pairs stops).map (·.2), node.IsTyped ∧
      node.term ∈ Operator.everyOther ((Node.terms stops).drop 1) ∧ node.Lowers (some output) := by
    intro node hNode
    obtain ⟨pair, hPair, rfl⟩ := List.mem_map.mp hNode
    have hOperand := mem_stopOperands output input (hPairs ▸ hPair) (pair.2, some output) (by simp)
    exact ⟨hStopsTyped _ (Operator.mem_of_mem_pairs hPair).2, term_mem_everyOther hPair,
      hLowers _ hOperand⟩
  obtain ⟨own, t, type, hOwn, hStart, hType, hSuits, hTrees⟩ :=
    outputs_typed (by rw [hPairs]; exact List.cons_ne_nil _ _) hOutputs hOutput
  -- Only colours and numbers are blended.
  have hBlends : type = .float ∨ type = .vec4 := by
    rw [TypeSet.mem_or, TypeSet.colour, TypeSet.number, TypeSet.mem_single,
      TypeSet.mem_single] at hStart
    rcases hStart with rfl | rfl
    · exact .inr (Option.some.inj hType).symm
    · exact .inl (Option.some.inj hType).symm
  refine ⟨own, type, hOwn, hSuits, ?_⟩
  rw [interpolationTree_arguments hPower hOutput, hPairs]
  rw [hPairs] at hStopTrees hTrees
  obtain ⟨hStartTree, hStopTrees⟩ := List.forall_mem_cons.mp hStopTrees
  obtain ⟨hFirstTree, hTrees⟩ := List.forall_mem_cons.mp hTrees
  refine Builtin.type?_rampTree hBlends hInputTree rfl hFirstTree hStartTree
    fun branch hBranch => ?_
  obtain ⟨pair, hPair, rfl⟩ := List.mem_map.mp hBranch
  exact ⟨hStopTrees pair hPair, hTrees pair.2 (List.mem_map_of_mem hPair)⟩

end Plan

/-- A call of a scalar operator with typed arguments is typed. -/
theorem Builtin.isTypedAt_of_isScalar {b : Builtin} (hScalar : b.isScalar) {args : List Node}
    {hint : Option TypeSet} {plan : Plan} {phrase : Phrase} (hTyped : ∀ arg ∈ args, arg.IsTyped)
    (hOk : plan.script.outcome = .ok phrase) (hPlan : b.plan args hint = .ok plan) :
    b.IsTypedAt args hint := by
  have hFloats : ∀ {count : Nat} {build : List Phrase → Phrase},
      Plan.ofCount count args build = .ok plan →
      AreFloats count ((Plan.arguments args).map (·.tree (some .number))) :=
    fun hCount => Plan.ofCount_areFloats hTyped hOk hCount
  have hHalf : ∀ tree : SyntaxTree Atom, tree.type? Atom.type? = some .float →
      (SyntaxTree.binary .add tree (numeralTree "0.5")).type? Atom.type? = some .float := by
    intro tree hTree
    exact SyntaxTree.type?_binary_eq_some.mpr ⟨_, _, hTree, type?_numeralTree (by decide), rfl⟩
  cases b with
  | get | var | array | interpolate | matching => cases hScalar
  | time => exact .of_single .number rfl rfl (by decide : declaredType? _ "u_time" = _)
  | zoom => exact .of_single .number rfl rfl (by decide : declaredType? _ "u_zoom" = _)
  | resolution => exact .of_single .number rfl rfl (by decide : declaredType? _ "u_resolution" = _)
  | multiply => exact .of_single .number rfl rfl (Plan.ofNumericChain_type hTyped hOk hPlan rfl)
  | divide => exact .of_single .number rfl rfl ((hFloats hPlan).pair rfl)
  | add => exact .of_single .number rfl rfl (Plan.ofNumericChain_type hTyped hOk hPlan rfl)
  | subtract => exact .of_single .number rfl rfl ((hFloats hPlan).pair rfl)
  | clamp => exact .of_single .number rfl rfl ((hFloats hPlan).call rfl)
  | modulo => exact .of_single .number rfl rfl ((hFloats hPlan).call rfl)
  | power => exact .of_single .number rfl rfl ((hFloats hPlan).call rfl)
  | abs => exact .of_single .number rfl rfl ((hFloats hPlan).call rfl)
  | floor => exact .of_single .number rfl rfl ((hFloats hPlan).call rfl)
  | round => exact .of_single .number rfl rfl (((hFloats hPlan).map hHalf).call rfl)
  | ceil => exact .of_single .number rfl rfl ((hFloats hPlan).call rfl)
  | sin => exact .of_single .number rfl rfl ((hFloats hPlan).call rfl)
  | cos => exact .of_single .number rfl rfl ((hFloats hPlan).call rfl)
  | atan =>
      obtain ⟨count, hLeast, hMost, hAll⟩ := Plan.ofRange_areFloats hTyped hOk hPlan
      have hCount : count = 1 ∨ count = 2 := by omega
      rcases hCount with rfl | rfl
      · exact .of_single .number rfl rfl (hAll.call rfl)
      · exact .of_single .number rfl rfl (hAll.call rfl)
  | greater => exact .of_single .boolean rfl rfl ((hFloats hPlan).pair rfl)
  | greaterOrEqual => exact .of_single .boolean rfl rfl ((hFloats hPlan).pair rfl)
  | less => exact .of_single .boolean rfl rfl ((hFloats hPlan).pair rfl)
  | lessOrEqual => exact .of_single .boolean rfl rfl ((hFloats hPlan).pair rfl)
  | equal =>
      exact .of_single .boolean rfl rfl (Plan.ofEquality_type hTyped hOk hPlan fun _ => if_pos rfl)
  | notEqual =>
      exact .of_single .boolean rfl rfl (Plan.ofEquality_type hTyped hOk hPlan fun _ => if_pos rfl)
  | not => exact .of_single .boolean rfl rfl (Plan.ofNegation_type hTyped hOk hPlan)
  | all => exact .of_single .boolean rfl rfl (Plan.ofBooleanChain_type hTyped hOk hPlan rfl)
  | any => exact .of_single .boolean rfl rfl (Plan.ofBooleanChain_type hTyped hOk hPlan rfl)
  | between => exact .of_single .boolean rfl rfl (hFloats hPlan).between
  | colour =>
      obtain ⟨count, hLeast, hMost, hAll⟩ := Plan.ofRange_areFloats hTyped hOk hPlan
      exact .of_single .colour rfl rfl (areFloats_colourTrees hAll hLeast hMost).vector
  | casewise => exact Plan.ofCase_typed hTyped hOk hPlan

end PointStyle
