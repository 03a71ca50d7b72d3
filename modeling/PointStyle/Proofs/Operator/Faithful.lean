import PointStyle.Proofs.Operator.Plan

/-! Every built-in operator carries out its plan: whatever the state, lowering a call checks,
records, lowers operands and writes text exactly as the operator table says. -/
namespace PointStyle

open Lowering Glsl

/-- Lowering the term of a node follows its script, whatever the hint. -/
def Node.Faithful (stage : Stage) (codes : LiteralTable) (node : Node) : Prop :=
  ∀ hint, Follows stage codes (Phrase.text stage codes) (node.term.lower hint) (node.script hint)

namespace Plan

variable {stage : Stage} {codes : LiteralTable} {args : List Node}

/-- Lowering terms under one hint follows the visits of their nodes. -/
theorem lowerAll_follows (hArgs : ∀ node ∈ args, node.Faithful stage codes)
    (hint : Option TypeSet) :
    Follows stage codes (List.map (Phrase.text stage codes)) (Term.lowerAll (Node.terms args) hint)
      (Node.visitAll (args.map (·, hint))) := by
  induction args with
  | nil => exact Follows.pure_of ([] : List Phrase)
  | cons node rest ih =>
      refine (hArgs node (List.mem_cons_self ..) hint).bind fun phrase _ => ?_
      refine (ih fun other hOther => hArgs other (List.mem_cons_of_mem _ hOther)).bind
        fun phrases _ => ?_
      exact Follows.pure_of (phrase :: phrases)

theorem length_of_visitAll {operands : List (Node × Option TypeSet)} {phrases : List Phrase}
    (h : (Node.visitAll operands).outcome = .ok phrases) : phrases.length = operands.length := by
  induction operands generalizing phrases with
  | nil =>
      cases h
      rfl
  | cons operand rest ih =>
      obtain ⟨_, others, rfl, _, hOthers, _⟩ := Node.visitAll_cons_ok h
      rw [List.length_cons, List.length_cons, ih hOthers]

section Numbers

variable {build : List Phrase → Phrase} {next : List String → Lowering String}

/-- Numbers are checked before any of them is lowered. -/
theorem ofNumbers_follows (hArgs : ∀ node ∈ args, node.Faithful stage codes)
    (hNext : ∀ phrases : List Phrase, phrases.length = args.length →
      next (phrases.map (Phrase.text stage codes)) =
        pure (Phrase.text stage codes (build phrases))) :
    Follows stage codes (Phrase.text stage codes) (Operator.lowerNumbers (Node.terms args) >>= next)
      (checked (ofNumbers args build)) := by
  rw [ofNumbers, checked_bind, Operator.lowerNumbers, bind_assoc]
  refine Follows.check_bind fun _ _ => ?_
  refine (lowerAll_follows hArgs _).bind fun phrases hPhrases => ?_
  rw [hNext phrases (by rw [length_of_visitAll hPhrases, List.length_map])]
  exact Follows.pure_of _

/-- Operators on a fixed number of numbers follow their plan if they write what it builds. -/
theorem ofCount_follows (hArgs : ∀ node ∈ args, node.Faithful stage codes) {count : Nat}
    (hNext : ∀ phrases : List Phrase, phrases.length = count →
      next (phrases.map (Phrase.text stage codes)) =
        pure (Phrase.text stage codes (build phrases))) :
    Follows stage codes (Phrase.text stage codes)
      (Operator.lowerCount count (Node.terms args) >>= next)
      (checked (ofCount count args build)) := by
  rw [ofCount, checked_bind, Operator.lowerCount, bind_assoc]
  refine Follows.check_bind fun _ hCount => ofNumbers_follows hArgs fun phrases hLength => ?_
  exact hNext phrases (hLength.trans (length_of_requireCount hCount))

/-- So do operators on as many numbers as two bounds allow. -/
theorem ofRange_follows (hArgs : ∀ node ∈ args, node.Faithful stage codes) {least most : Nat}
    (hNext : ∀ phrases : List Phrase,
      next (phrases.map (Phrase.text stage codes)) =
        pure (Phrase.text stage codes (build phrases))) :
    Follows stage codes (Phrase.text stage codes)
      (do
        Lowering.check (Term.requireAtLeast (Node.terms args) least)
        Lowering.check (Term.requireAtMost (Node.terms args) most)
        Operator.lowerNumbers (Node.terms args) >>= next)
      (checked (ofRange least most args build)) := by
  rw [ofRange, checked_bind]
  refine Follows.check_bind fun _ _ => ?_
  rw [checked_bind]
  exact Follows.check_bind fun _ _ => ofNumbers_follows hArgs fun phrases _ => hNext phrases

theorem ofNumericChain_follows (hArgs : ∀ node ∈ args, node.Faithful stage codes)
    (operator : BinaryOperator) (hint : Option TypeSet) :
    Follows stage codes (Phrase.text stage codes)
      ((Operator.numericChain operator.symbol).lower (Node.terms args) hint)
      (checked (ofNumericChain operator args)) := by
  rw [ofNumericChain, checked_bind]
  refine Follows.check_bind fun _ _ => ofNumbers_follows hArgs fun phrases _ => ?_
  rw [Phrase.text_group_chain]

theorem ofNumericPair_follows (hArgs : ∀ node ∈ args, node.Faithful stage codes) (types : TypeSet)
    (operator : BinaryOperator) (hint : Option TypeSet) :
    Follows stage codes (Phrase.text stage codes)
      ((Operator.numericPair types operator.symbol).lower (Node.terms args) hint)
      (checked (ofNumericPair operator args)) := by
  refine ofCount_follows hArgs fun phrases _ => ?_
  rw [Phrase.text_group_chain]

theorem ofFunction_follows (hArgs : ∀ node ∈ args, node.Faithful stage codes) (function : String)
    (count : Nat) (hint : Option TypeSet) :
    Follows stage codes (Phrase.text stage codes)
      ((Operator.numericFunction function count).lower (Node.terms args) hint)
      (checked (ofCount count args (.call function))) := by
  refine ofCount_follows hArgs fun phrases _ => ?_
  rw [Phrase.text_call]

theorem round_follows (hArgs : ∀ node ∈ args, node.Faithful stage codes) (hint : Option TypeSet) :
    Follows stage codes (Phrase.text stage codes) (Operator.round.lower (Node.terms args) hint)
      (checked (ofCount 1 args roundPhrase)) := by
  refine ofCount_follows hArgs fun phrases _ => ?_
  rw [roundPhrase, Phrase.text_call, List.map_map, List.map_map]
  congr 3
  funext phrase
  simp [Phrase.text, Atom.text, BinaryOperator.symbol, String.append_assoc]

theorem arcTangent_follows (hArgs : ∀ node ∈ args, node.Faithful stage codes)
    (hint : Option TypeSet) :
    Follows stage codes (Phrase.text stage codes) (Operator.arcTangent.lower (Node.terms args) hint)
      (checked (ofRange 1 2 args (.call "atan"))) := by
  refine ofRange_follows hArgs fun phrases => ?_
  rw [Phrase.text_call]

theorem between_follows (hArgs : ∀ node ∈ args, node.Faithful stage codes) (hint : Option TypeSet) :
    Follows stage codes (Phrase.text stage codes) (Operator.between.lower (Node.terms args) hint)
      (checked (ofCount 3 args betweenPhrase)) := by
  refine ofCount_follows hArgs fun phrases hLength => ?_
  match phrases, hLength with
  | [value, low, high], _ =>
      simp [betweenPhrase, Phrase.text, BinaryOperator.symbol, Glsl.chain, String.append_assoc]

theorem numberArray_follows (hArgs : ∀ node ∈ args, node.Faithful stage codes)
    (hint : Option TypeSet) :
    Follows stage codes (Phrase.text stage codes)
      (Operator.numberArray.lower (Node.terms args) hint)
      (checked (ofRange 2 4 args Phrase.vector)) := by
  refine ofRange_follows hArgs fun phrases => ?_
  rw [Phrase.text_vector]

/-- The components of a colour are written as its phrases are. -/
theorem map_text_colourPhrases (phrases : List Phrase) :
    (colourPhrases phrases).map (Phrase.text stage codes) =
      Operator.colourComponents (phrases.map (Phrase.text stage codes)) := by
  match phrases with
  | [] => rfl
  | [_] => rfl
  | [_, _] => rfl
  | [red, green, blue] =>
      simp [colourPhrases, Operator.colourComponents, channelPhrase, Phrase.text, Atom.text,
        BinaryOperator.symbol, String.append_assoc]
  | [red, green, blue, alpha] =>
      simp [colourPhrases, Operator.colourComponents, channelPhrase, Phrase.text, Atom.text,
        BinaryOperator.symbol, String.append_assoc]
  | _ :: _ :: _ :: _ :: _ :: _ => rfl

theorem colour_follows (hArgs : ∀ node ∈ args, node.Faithful stage codes) (hint : Option TypeSet) :
    Follows stage codes (Phrase.text stage codes) (Operator.colour.lower (Node.terms args) hint)
      (checked (ofRange 3 4 args fun operands => Phrase.vector (colourPhrases operands))) := by
  refine ofRange_follows hArgs fun phrases => ?_
  rw [Phrase.text_vector, map_text_colourPhrases]

end Numbers

/-- A named value follows its plan if its reference follows the event. -/
theorem namedInput_follows {refer : String → Lowering String} {event : String → Event}
    {atom : String → Atom}
    (hRefer : ∀ name, Follows stage codes (Phrase.text stage codes) (refer name)
      (do Script.recording [event name]; return .atom (atom name)))
    (hint : Option TypeSet) :
    Follows stage codes (Phrase.text stage codes)
      ((Operator.namedInput refer).lower (Node.terms args) hint)
      (checked (ofName event atom args)) := by
  match args with
  | [arg] =>
      rw [ofName, checked_bind]
      exact Follows.check_bind fun name _ => hRefer name
  | [] => exact Follows.throw_of _
  | _ :: _ :: rest =>
      rw [ofName, ← Node.length_terms]
      · exact Follows.throw_of _
      · intro arg hEq
        cases hEq

theorem viewInput_follows (uniform : String) (hint : Option TypeSet) :
    Follows stage codes (Phrase.text stage codes)
      ((Operator.viewInput uniform).lower (Node.terms args) hint)
      (checked (ofView uniform args)) := by
  rw [ofView, checked_bind]
  exact Follows.check_bind fun _ _ => Follows.pure_of (Phrase.atom (.uniform uniform))

/-- An equality follows its plan: its sides are lowered with the types that they share but
colour. -/
theorem equality_follows (hArgs : ∀ node ∈ args, node.Faithful stage codes)
    (operator : BinaryOperator) (hint : Option TypeSet) :
    Follows stage codes (Phrase.text stage codes)
      ((Operator.equality operator.symbol).lower (Node.terms args) hint)
      (checked (ofEquality operator args)) := by
  match args with
  | [left, right] =>
      rw [ofEquality, checked_bind]
      refine Follows.check_bind fun shared _ => ?_
      by_cases hEmpty : shared.isEmpty
      · rw [if_pos hEmpty]
        simp only [hEmpty]
        exact Follows.throw_of _
      · simp only [hEmpty, Bool.false_eq_true, if_false]
        show Follows _ _ _ _ (Plan.script _)
        simp only [script_of_operands, Node.visitAll, bind_assoc, pure_bind]
        refine (hArgs left (by simp) _).bind fun leftPhrase _ => ?_
        refine (hArgs right (by simp) _).bind fun rightPhrase _ => ?_
        show Follows stage codes _
          (pure (Glsl.chain operator.symbol
            ([leftPhrase, rightPhrase].map (Phrase.text stage codes)))) _
        rw [← Phrase.text_group_chain]
        exact Follows.pure_of _
  | [] => exact Follows.throw_of _
  | [_] => exact Follows.throw_of _
  | _ :: _ :: _ :: rest =>
      rw [ofEquality, ← Node.length_terms]
      · exact Follows.throw_of _
      · intro left right hEq
        cases hEq

theorem negation_follows (hArgs : ∀ node ∈ args, node.Faithful stage codes)
    (hint : Option TypeSet) :
    Follows stage codes (Phrase.text stage codes) (Operator.negation.lower (Node.terms args) hint)
      (checked (ofNegation args)) := by
  match args with
  | [arg] =>
      rw [ofNegation, checked_bind]
      refine Follows.check_bind fun _ _ => ?_
      show Follows _ _ _ _ (Plan.script _)
      simp only [script_of_operands, Node.visitAll, bind_assoc, pure_bind]
      refine (hArgs arg (by simp) _).bind fun phrase _ => ?_
      have hText : "(!" ++ Phrase.text stage codes phrase ++ ")" =
          Phrase.text stage codes (negationPhrase [phrase]) := by
        rw [show "(!" = "(" ++ "!" from rfl]
        simp only [negationPhrase, Phrase.text, String.append_assoc]
      rw [hText]
      exact Follows.pure_of _
  | [] => exact Follows.throw_of _
  | _ :: _ :: rest =>
      rw [ofNegation, ← Node.length_terms]
      · exact Follows.throw_of _
      · intro arg hEq
        cases hEq

theorem booleanChain_follows (hArgs : ∀ node ∈ args, node.Faithful stage codes)
    (operator : BinaryOperator) (hint : Option TypeSet) :
    Follows stage codes (Phrase.text stage codes)
      ((Operator.booleanChain operator.symbol).lower (Node.terms args) hint)
      (checked (ofBooleanChain operator args)) := by
  rw [ofBooleanChain, checked_bind]
  refine Follows.check_bind fun _ _ => ?_
  rw [checked_bind]
  refine Follows.check_bind fun _ _ => ?_
  refine (lowerAll_follows hArgs _).bind fun phrases _ => ?_
  rw [← Phrase.text_group_chain]
  exact Follows.pure_of _

/-- Settling on a type is a check. -/
theorem outputType_eq_check (types : Except ExpressionError TypeSet) (hint : Option TypeSet) :
    Operator.outputType (Node.terms args) types hint =
      Lowering.check (outputTypes args types hint) := by
  unfold Operator.outputType outputTypes
  cases types with
  | error error => rfl
  | ok types =>
      show (Lowering.check (Term.requireUnique (Node.terms args) (Operator.narrow types hint)) >>=
          fun _ => pure (Operator.narrow types hint)) =
        Lowering.check (Term.requireUnique (Node.terms args) (Operator.narrow types hint) >>=
          fun _ => pure (Operator.narrow types hint))
      cases Term.requireUnique (Node.terms args) (Operator.narrow types hint) <;> rfl

/-- Pairs of faithful nodes are pairs of such. -/
theorem faithful_pairs {nodes : List Node} (hNodes : ∀ node ∈ nodes, node.Faithful stage codes) :
    ∀ pair ∈ Operator.pairs nodes, pair.1.Faithful stage codes ∧ pair.2.Faithful stage codes := by
  intro pair hPair
  obtain ⟨hFirst, hSecond⟩ := Operator.mem_of_mem_pairs hPair
  exact ⟨hNodes _ hFirst, hNodes _ hSecond⟩

theorem getLast?_terms (nodes : List Node) :
    (Node.terms nodes).getLast? = nodes.getLast?.map (·.term) := by
  rw [Node.terms, List.getLast?_map]

theorem pairs_dropLast_terms (nodes : List Node) :
    Operator.pairs (Node.terms nodes).dropLast = (Operator.pairs nodes.dropLast).map termPair := by
  rw [Node.terms, ← List.map_dropLast, ← Node.terms, pairs_terms]

/-- The first pair of a choice is lowered last, around what the others give. -/
theorem script_choice_cons (test : Phrase → Phrase) (output : TypeSet) (fallback : Node)
    (pair : Node × Node) (rest : List (Node × Node)) :
    (do
        let phrases ← Node.visitAll
          ((fallback, some output) :: choiceOperands output (pair :: rest))
        return choicePhrase test phrases.reverse) =
      (do
        let otherwise ← (do
          let phrases ← Node.visitAll ((fallback, some output) :: choiceOperands output rest)
          return choicePhrase test phrases.reverse)
        let candidate ← pair.1.script none
        let value ← pair.2.script (some output)
        return .group (.conditional (test candidate) value otherwise)) := by
  rw [choiceOperands, ← List.cons_append, Node.visitAll_append]
  simp only [Node.visitAll, bind_assoc, pure_bind, List.reverse_append, List.reverse_cons,
    List.reverse_nil, List.nil_append, List.cons_append, choicePhrase]

/-- The fallback comes first, then the pairs from the last to the first. -/
theorem choices_follows {test : String → String} {test' : Phrase → Phrase}
    (hTest : ∀ phrase,
      test (Phrase.text stage codes phrase) = Phrase.text stage codes (test' phrase))
    (output : TypeSet) {fallback : Node} (hFallback : fallback.Faithful stage codes)
    (branches : List (Node × Node))
    (hBranches : ∀ pair ∈ branches, pair.1.Faithful stage codes ∧ pair.2.Faithful stage codes) :
    Follows stage codes (Phrase.text stage codes)
      (Operator.choices test output fallback.term (branches.map termPair))
      (do
        let phrases ← Node.visitAll ((fallback, some output) :: choiceOperands output branches)
        return choicePhrase test' phrases.reverse) := by
  induction branches with
  | nil =>
      simp only [choiceOperands, Node.visitAll, bind_assoc, pure_bind, List.reverse_singleton,
        choicePhrase, bind_pure]
      exact hFallback _
  | cons pair rest ih =>
      obtain ⟨candidate, value⟩ := pair
      obtain ⟨hCandidate, hValue⟩ := hBranches (candidate, value) (List.mem_cons_self ..)
      have hRest := ih fun pair hPair => hBranches pair (List.mem_cons_of_mem _ hPair)
      rw [script_choice_cons]
      refine hRest.bind fun otherwise _ => ?_
      refine (hCandidate none).bind fun candidatePhrase _ => ?_
      refine (hValue (some output)).bind fun valuePhrase _ => ?_
      have hText : Glsl.conditional (test (Phrase.text stage codes candidatePhrase))
          (Phrase.text stage codes valuePhrase) (Phrase.text stage codes otherwise) =
          Phrase.text stage codes
            (.group (.conditional (test' candidatePhrase) valuePhrase otherwise)) := by
        simp only [Glsl.conditional, Phrase.text, hTest, String.append_assoc]
      show Follows stage codes _ (pure (Glsl.conditional _ _ _)) _
      rw [hText]
      exact Follows.pure_of _

/-- A match follows its plan: its fallback comes first, then its pairs from the last to the
first. -/
theorem match_follows (hArgs : ∀ node ∈ args, node.Faithful stage codes) (hint : Option TypeSet) :
    Follows stage codes (Phrase.text stage codes) (Operator.Match.lower (Node.terms args) hint)
      (checked (ofMatch args hint)) := by
  rw [ofMatch, checked_bind, Operator.Match.lower]
  refine Follows.check_bind fun _ _ => ?_
  rw [checked_bind]
  refine Follows.check_bind fun _ _ => ?_
  rw [checked_bind, outputType_eq_check]
  refine Follows.check_bind fun output _ => ?_
  match args with
  | [] => exact Follows.throw_of _
  | input :: rest =>
      obtain ⟨fallback, hLast⟩ : ∃ fallback, (input :: rest).getLast? = some fallback :=
        ⟨_, List.getLast?_eq_some_getLast (List.cons_ne_nil _ _)⟩
      have hFallback := hArgs fallback (List.mem_of_getLast? hLast)
      have hBranches := faithful_pairs fun node hNode =>
        hArgs node (List.mem_cons_of_mem _ ((List.dropLast_sublist rest).mem hNode))
      simp only [getLast?_terms, hLast, Option.map_some]
      show Follows _ _ _ (input.term.lower none >>= fun inputText =>
          Operator.choices _ output fallback.term (Operator.pairs (Node.terms rest).dropLast))
        (Plan.script _)
      rw [script_of_operands, Node.visitAll, bind_assoc]
      refine (hArgs input (List.mem_cons_self ..) none).bind fun inputPhrase _ => ?_
      have hTest : ∀ phrase,
          Phrase.text stage codes inputPhrase ++ " == " ++ Phrase.text stage codes phrase =
            Phrase.text stage codes (.binary .equal inputPhrase phrase) := fun _ => rfl
      have hChoices := choices_follows hTest output hFallback _ hBranches
      rw [pairs_dropLast_terms]
      simpa only [bind_assoc, pure_bind, matchPhrase] using hChoices

theorem case_follows (hArgs : ∀ node ∈ args, node.Faithful stage codes) (hint : Option TypeSet) :
    Follows stage codes (Phrase.text stage codes) (Operator.Case.lower (Node.terms args) hint)
      (checked (ofCase args hint)) := by
  rw [ofCase, checked_bind, Operator.Case.lower]
  refine Follows.check_bind fun _ _ => ?_
  rw [checked_bind]
  refine Follows.check_bind fun _ _ => ?_
  rw [checked_bind, outputType_eq_check]
  refine Follows.check_bind fun output _ => ?_
  cases hLast : args.getLast? with
  | none =>
      simp only [getLast?_terms, hLast, Option.map_none, Node.length_terms]
      exact Follows.throw_of _
  | some fallback =>
      have hBranches := faithful_pairs fun node hNode =>
        hArgs node ((List.dropLast_sublist args).mem hNode)
      have hTests : ((Operator.pairs args.dropLast).map termPair).map (·.1) =
          (Operator.pairs args.dropLast).map (·.1.term) := by
        rw [List.map_map]
        rfl
      simp only [getLast?_terms, hLast, Option.map_some, pairs_dropLast_terms, hTests]
      rw [checked_bind]
      refine Follows.check_bind fun _ _ => ?_
      exact choices_follows (fun _ => rfl) output (hArgs _ (List.mem_of_getLast? hLast)) _ hBranches

/-- A segment is written as its phrase is. -/
theorem segment_text (input power below above low high : Phrase) :
    Operator.Interpolate.segment (Phrase.text stage codes input) (Phrase.text stage codes power)
        (Phrase.text stage codes below) (Phrase.text stage codes above)
        (Phrase.text stage codes low) (Phrase.text stage codes high) =
      Phrase.text stage codes (segmentPhrase input power below above low high) := by
  have hMinus : " " ++ "-" ++ " " = " - " := rfl
  have hSlash : " " ++ "/" ++ " " = " / " := rfl
  have hMiddle : ") / (" = ")" ++ (" / " ++ "(") := rfl
  rw [Operator.Interpolate.segment, hMiddle]
  simp only [segmentPhrase, Phrase.text, Phrase.texts, Atom.text, BinaryOperator.symbol,
    hMinus, hSlash]
  simp only [String.append_assoc]

/-- Each further segment starts at the stop where the one before ends. -/
theorem ramp_follows (input power : Phrase) (output : TypeSet) (below : Phrase) {start : Node}
    (hStart : start.Faithful stage codes) (stops : List (Node × Node))
    (hStops : ∀ pair ∈ stops, pair.1.Faithful stage codes ∧ pair.2.Faithful stage codes) :
    Follows stage codes (Phrase.text stage codes)
      (Operator.Interpolate.ramp (Phrase.text stage codes input) (Phrase.text stage codes power)
        output (Phrase.text stage codes below) start.term (stops.map termPair))
      (do
        let phrases ← Node.visitAll (rampOperands output start stops)
        return rampPhrase input power below phrases) := by
  induction stops generalizing below start with
  | nil => exact Follows.pure_of _
  | cons pair rest ih =>
      obtain ⟨stop, value⟩ := pair
      obtain ⟨hStop, hValue⟩ := hStops (stop, value) (List.mem_cons_self ..)
      simp only [rampOperands, Node.visitAll, bind_assoc, pure_bind]
      refine (hStart none).bind fun low _ => ?_
      refine (hStop none).bind fun high _ => ?_
      refine (hValue (some output)).bind fun above _ => ?_
      rw [segment_text]
      have hRest := ih (segmentPhrase input power below above low high) hStop fun pair hPair =>
        hStops pair (List.mem_cons_of_mem _ hPair)
      simpa only [rampPhrase] using hRest

/-- An interpolation follows its plan: each stop is lowered again where its segment starts. -/
theorem interpolation_follows (hArgs : ∀ node ∈ args, node.Faithful stage codes)
    (hint : Option TypeSet) :
    Follows stage codes (Phrase.text stage codes)
      (Operator.Interpolate.lower (Node.terms args) hint)
      (checked (ofInterpolation args hint)) := by
  unfold ofInterpolation Operator.Interpolate.lower
  rw [checked_bind]
  refine Follows.check_bind fun _ _ => ?_
  rw [checked_bind]
  refine Follows.check_bind fun _ hLeast => ?_
  have hLength := le_length_of_requireAtLeast hLeast
  match args with
  | [] => exact Follows.throw_of _
  | [_] => exact Follows.throw_of _
  | kind :: input :: stops =>
      have hStops := faithful_pairs fun node (hNode : node ∈ stops) =>
        hArgs node (List.mem_cons_of_mem _ (List.mem_cons_of_mem _ hNode))
      have hInput := hArgs input (by simp)
      show Follows _ _ _ (Lowering.check (Operator.Interpolate.exponent kind.term) >>= fun power =>
        Operator.outputType _ _ hint >>= fun output => input.term.lower none >>= fun inputText =>
          Operator.Interpolate.lowerStops inputText (Glsl.number power) output _
            (Operator.pairs (Node.terms stops))) _
      rw [checked_bind, pairs_terms]
      refine Follows.check_bind fun power _ => ?_
      rw [checked_bind, outputType_eq_check]
      refine Follows.check_bind fun output _ => ?_
      -- Six arguments leave two pairs, so the error for fewer is never the outcome.
      have hCount := Operator.length_pairs stops
      simp only [List.length_cons] at hLength
      match hPairs : Operator.pairs stops with
      | [] =>
          rw [hPairs, List.length_nil] at hCount
          omega
      | [_] =>
          rw [hPairs, List.length_singleton] at hCount
          omega
      | (start, first) :: (stop, value) :: rest =>
          rw [hPairs] at hStops
          obtain ⟨hStart, hFirst⟩ := hStops (start, first) (by simp)
          obtain ⟨hStop, hValue⟩ := hStops (stop, value) (by simp)
          show Follows _ _ _ _ (Plan.script _)
          simp only [script_of_operands, Node.visitAll, bind_assoc, pure_bind]
          refine (hInput none).bind fun inputPhrase _ => ?_
          refine (hStart none).bind fun low _ => ?_
          refine (hFirst (some output)).bind fun below _ => ?_
          refine (hStop none).bind fun high _ => ?_
          refine (hValue (some output)).bind fun above _ => ?_
          have hPower : Glsl.number power = Phrase.text stage codes (.atom (.number power)) := rfl
          rw [hPower, segment_text]
          exact ramp_follows inputPhrase (.atom (.number power)) output _ hStop rest
            fun pair hPair => hStops pair (by simp [hPair])

end Plan

variable {stage : Stage} {codes : LiteralTable}

/-- The operator table is right about every built-in operator. -/
theorem Builtin.follows_plan (b : Builtin) {args : List Node}
    (hArgs : ∀ node ∈ args, node.Faithful stage codes) (hint : Option TypeSet) :
    Follows stage codes (Phrase.text stage codes) (b.operator.lower (Node.terms args) hint)
      (Plan.checked (b.plan args hint)) := by
  cases b with
  | get => exact Plan.namedInput_follows Follows.attributeRef_of hint
  | var => exact Plan.namedInput_follows Follows.variableRef_of hint
  | time => exact Plan.viewInput_follows _ hint
  | zoom => exact Plan.viewInput_follows _ hint
  | resolution => exact Plan.viewInput_follows _ hint
  | multiply => exact Plan.ofNumericChain_follows hArgs .multiply hint
  | divide => exact Plan.ofNumericPair_follows hArgs _ .divide hint
  | add => exact Plan.ofNumericChain_follows hArgs .add hint
  | subtract => exact Plan.ofNumericPair_follows hArgs _ .subtract hint
  | clamp => exact Plan.ofFunction_follows hArgs _ _ hint
  | modulo => exact Plan.ofFunction_follows hArgs _ _ hint
  | power => exact Plan.ofFunction_follows hArgs _ _ hint
  | abs => exact Plan.ofFunction_follows hArgs _ _ hint
  | floor => exact Plan.ofFunction_follows hArgs _ _ hint
  | round => exact Plan.round_follows hArgs hint
  | ceil => exact Plan.ofFunction_follows hArgs _ _ hint
  | sin => exact Plan.ofFunction_follows hArgs _ _ hint
  | cos => exact Plan.ofFunction_follows hArgs _ _ hint
  | atan => exact Plan.arcTangent_follows hArgs hint
  | greater => exact Plan.ofNumericPair_follows hArgs _ .greater hint
  | greaterOrEqual => exact Plan.ofNumericPair_follows hArgs _ .greaterOrEqual hint
  | less => exact Plan.ofNumericPair_follows hArgs _ .less hint
  | lessOrEqual => exact Plan.ofNumericPair_follows hArgs _ .lessOrEqual hint
  | equal => exact Plan.equality_follows hArgs .equal hint
  | notEqual => exact Plan.equality_follows hArgs .notEqual hint
  | not => exact Plan.negation_follows hArgs hint
  | all => exact Plan.booleanChain_follows hArgs .and hint
  | any => exact Plan.booleanChain_follows hArgs .or hint
  | between => exact Plan.between_follows hArgs hint
  | array => exact Plan.numberArray_follows hArgs hint
  | colour => exact Plan.colour_follows hArgs hint
  | interpolate => exact Plan.interpolation_follows hArgs hint
  | matching => exact Plan.match_follows hArgs hint
  | casewise => exact Plan.case_follows hArgs hint

end PointStyle
