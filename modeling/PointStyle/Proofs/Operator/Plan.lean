import PointStyle.Proofs.Lowering.Follows
import PointStyle.Proofs.Operator.Prescription

/-! The operator table. Every built-in operator first checks its arguments, which neither lowers nor
records anything; then it lowers its operands one after the other, each under a hint; and then it
puts their phrases together. A plan holds the last two, and `Builtin.plan` is the table of them. -/
namespace PointStyle

open Lowering Glsl

namespace Operator

variable {α β : Type}

/-- Taking elements in pairs goes with changing all of them. -/
theorem pairs_map (f : α → β) (xs : List α) :
    pairs (xs.map f) = (pairs xs).map fun pair => (f pair.1, f pair.2) := by
  match xs with
  | [] => rfl
  | [_] => rfl
  | a :: b :: rest =>
      simp only [List.map_cons, pairs]
      rw [pairs_map f rest]

theorem length_pairs (xs : List α) : (pairs xs).length = xs.length / 2 := by
  match xs with
  | [] => simp [pairs]
  | [_] => simp [pairs]
  | a :: b :: rest =>
      simp only [pairs, List.length_cons, length_pairs rest]
      omega

/-- The elements of pairs are elements of the list. -/
theorem mem_of_mem_pairs {xs : List α} {pair : α × α} (h : pair ∈ pairs xs) :
    pair.1 ∈ xs ∧ pair.2 ∈ xs := by
  match xs with
  | [] => cases h
  | [_] => cases h
  | a :: b :: rest =>
      rcases List.mem_cons.mp h with rfl | h
      · simp
      · obtain ⟨hFirst, hSecond⟩ := mem_of_mem_pairs h
        simp [hFirst, hSecond]

/-- In a list of even length no element is left over. -/
theorem exists_mem_pairs {xs : List α} (hEven : xs.length % 2 = 0) {a : α} (h : a ∈ xs) :
    ∃ pair ∈ pairs xs, a = pair.1 ∨ a = pair.2 := by
  match xs with
  | [] => cases h
  | [_] => cases hEven
  | b :: c :: rest =>
      rw [List.mem_cons, List.mem_cons] at h
      rcases h with rfl | rfl | h
      · exact ⟨(a, c), List.mem_cons_self .., .inl rfl⟩
      · exact ⟨(b, a), List.mem_cons_self .., .inr rfl⟩
      · simp only [List.length_cons] at hEven
        obtain ⟨pair, hPair, hEq⟩ := exists_mem_pairs (by omega : rest.length % 2 = 0) h
        exact ⟨pair, List.mem_cons_of_mem _ hPair, hEq⟩

end Operator

/-- An argument together with a script for lowering it. -/
structure Node extends Argument where
  script : Option TypeSet → Script Phrase

namespace Node

def terms (nodes : List Node) : List Term :=
  nodes.map (·.term)

@[simp] theorem length_terms (nodes : List Node) : (terms nodes).length = nodes.length :=
  List.length_map _

/-- Lowers operands from left to right, each under its own hint. -/
def visitAll : List (Node × Option TypeSet) → Script (List Phrase)
  | [] => pure []
  | (node, hint) :: rest => do
    let phrase ← node.script hint
    let phrases ← visitAll rest
    return phrase :: phrases

/-- Operands are visited one after the other. -/
theorem visitAll_append (first second : List (Node × Option TypeSet)) :
    visitAll (first ++ second) = do
      let phrases ← visitAll first
      let others ← visitAll second
      return phrases ++ others := by
  induction first with
  | nil => simp [visitAll]
  | cons operand rest ih => simp [visitAll, ih]

/-- Operands succeed one by one, and their events come one after the other. -/
theorem visitAll_cons_ok {node : Node} {hint : Option TypeSet}
    {rest : List (Node × Option TypeSet)} {phrases : List Phrase}
    (h : (visitAll ((node, hint) :: rest)).outcome = .ok phrases) :
    ∃ phrase others, phrases = phrase :: others ∧ (node.script hint).outcome = .ok phrase ∧
      (visitAll rest).outcome = .ok others ∧
      (visitAll ((node, hint) :: rest)).events =
        (node.script hint).events ++ (visitAll rest).events := by
  obtain ⟨phrase, hPhrase, hNext, hEvents⟩ := Script.bind_outcome_ok h
  obtain ⟨others, hOthers, hLast, hRestEvents⟩ := Script.bind_outcome_ok hNext
  cases hLast
  refine ⟨phrase, others, rfl, hPhrase, hOthers, ?_⟩
  rw [visitAll, hEvents, hRestEvents, Script.pure_events, List.append_nil]

end Node

/-- What a call does when its arguments have passed the checks. -/
structure Plan where
  /-- What the call records itself, before it lowers operands. -/
  events : List Event
  /-- The operands in the order in which they are lowered, with their hints. -/
  operands : List (Node × Option TypeSet)
  /-- The phrase of the call, given the phrases of the operands in that order. -/
  build : List Phrase → Phrase

namespace Plan

def script (plan : Plan) : Script Phrase := do
  Script.recording plan.events
  let phrases ← Node.visitAll plan.operands
  return plan.build phrases

/-- A plan records its own events and then those of its operands, and builds its phrase from
theirs. -/
theorem script_eq (plan : Plan) :
    plan.script = ⟨plan.events ++ (Node.visitAll plan.operands).events,
      (Node.visitAll plan.operands).outcome.map plan.build⟩ := by
  rw [script, Script.bind_pure_eq]
  rfl

/-- A plan that succeeds has lowered its operands and put their phrases together. -/
theorem script_outcome_ok {plan : Plan} {phrase : Phrase} (h : plan.script.outcome = .ok phrase) :
    ∃ phrases, (Node.visitAll plan.operands).outcome = .ok phrases ∧ phrase = plan.build phrases ∧
      plan.script.events = plan.events ++ (Node.visitAll plan.operands).events := by
  obtain ⟨_, _, hNext, hEvents⟩ := Script.bind_outcome_ok h
  obtain ⟨phrases, hPhrases, hLast, hVisited⟩ := Script.bind_outcome_ok hNext
  cases hLast
  refine ⟨phrases, hPhrases, rfl, ?_⟩
  rw [Plan.script, hEvents, hVisited, Script.pure_events, List.append_nil]
  rfl

/-- Carries out a plan that some checks may still turn down. -/
def checked (plan : Except ExpressionError Plan) : Script Phrase := do
  let plan ← Script.check plan
  plan.script

/-- A plan after a check is a check and then the plan. -/
theorem checked_bind {α : Type} (result : Except ExpressionError α)
    (next : α → Except ExpressionError Plan) :
    checked (result >>= next) = Script.check result >>= fun a => checked (next a) := by
  cases result <;> rfl

theorem script_of_operands (operands : List (Node × Option TypeSet))
    (build : List Phrase → Phrase) :
    (Plan.mk [] operands build).script = do
      let phrases ← Node.visitAll operands
      return build phrases := rfl

section Checks

variable {args : List Node} {count : Nat} {u : Unit}

theorem length_of_requireCount (h : Term.requireCount (Node.terms args) count = .ok u) :
    args.length = count :=
  Node.length_terms args ▸ Term.length_of_requireCount h

theorem le_length_of_requireAtLeast (h : Term.requireAtLeast (Node.terms args) count = .ok u) :
    count ≤ args.length :=
  Node.length_terms args ▸ Term.le_length_of_requireAtLeast h

theorem length_le_of_requireAtMost (h : Term.requireAtMost (Node.terms args) count = .ok u) :
    args.length ≤ count :=
  Node.length_terms args ▸ Term.length_le_of_requireAtMost h

theorem even_of_requireEven (h : Term.requireEven (Node.terms args) = .ok u) :
    args.length % 2 = 0 :=
  Node.length_terms args ▸ Term.even_of_requireEven h

theorem odd_of_requireOdd (h : Term.requireOdd (Node.terms args) = .ok u) :
    args.length % 2 = 1 :=
  Node.length_terms args ▸ Term.odd_of_requireOdd h

end Checks

def termPair (pair : Node × Node) : Term × Term := (pair.1.term, pair.2.term)

theorem pairs_terms (nodes : List Node) :
    Operator.pairs (Node.terms nodes) = (Operator.pairs nodes).map termPair :=
  Operator.pairs_map _ nodes

/-- All arguments are operands and must be numbers. -/
def ofNumbers (args : List Node) (build : List Phrase → Phrase) : Except ExpressionError Plan := do
  Term.requireNumbers (Node.terms args)
  return ⟨[], args.map (·, some .number), build⟩

/-- As many numbers as are asked for. -/
def ofCount (count : Nat) (args : List Node) (build : List Phrase → Phrase) :
    Except ExpressionError Plan := do
  Term.requireCount (Node.terms args) count
  ofNumbers args build

/-- Two or more numbers, joined by one operator. -/
def ofNumericChain (operator : BinaryOperator) (args : List Node) :
    Except ExpressionError Plan := do
  Term.requireAtLeast (Node.terms args) 2
  ofNumbers args fun operands => .group (.chain operator operands)

def ofNumericPair (operator : BinaryOperator) (args : List Node) : Except ExpressionError Plan :=
  ofCount 2 args fun operands => .group (.chain operator operands)

/-- A number of arguments between two bounds, all of them numbers. -/
def ofRange (least most : Nat) (args : List Node) (build : List Phrase → Phrase) :
    Except ExpressionError Plan := do
  Term.requireAtLeast (Node.terms args) least
  Term.requireAtMost (Node.terms args) most
  ofNumbers args build

/-- A name is spelled out by a string. -/
theorem source_of_identifier {arg : Term} {name : String} (h : arg.identifier = .ok name) :
    arg.source = .string name := by
  unfold Term.identifier at h
  split at h
  · rename_i hSource
    cases h
    exact hSource
  · cases h

def ofName (event : String → Event) (atom : String → Atom) (args : List Node) :
    Except ExpressionError Plan :=
  match args with
  | [arg] => do
    let name ← arg.term.identifier
    return ⟨[event name], [], fun _ => .atom (atom name)⟩
  | _ => .error (.argsCount 1 args.length)

def ofView (uniform : String) (args : List Node) : Except ExpressionError Plan := do
  Term.requireCount (Node.terms args) 0
  return ⟨[], [], fun _ => .atom (.uniform uniform)⟩

/-- Two operands of a common type other than colour. -/
def ofEquality (operator : BinaryOperator) (args : List Node) : Except ExpressionError Plan :=
  match args with
  | [left, right] => do
    let shared ← Term.commonTypes .any [left.term, right.term]
    if shared.isEmpty then throw (.incompatibleTypes (Term.sources (Node.terms args)))
    let hint := shared &&& ~~~TypeSet.colour
    return ⟨[], [(left, some hint), (right, some hint)],
      fun operands => .group (.chain operator operands)⟩
  | _ => .error (.argsCount 2 args.length)

def negationPhrase : List Phrase → Phrase
  | [operand] => .group (.negation operand)
  | _ => .atom (.numeral "")

/-- One truth value, which is lowered without a hint. -/
def ofNegation (args : List Node) : Except ExpressionError Plan :=
  match args with
  | [arg] => do
    arg.term.requireBoolean
    return ⟨[], [(arg, none)], negationPhrase⟩
  | _ => .error (.argsCount 1 args.length)

/-- Two or more truth values, joined by one operator. -/
def ofBooleanChain (operator : BinaryOperator) (args : List Node) :
    Except ExpressionError Plan := do
  Term.requireAtLeast (Node.terms args) 2
  Term.requireBooleans (Node.terms args)
  return ⟨[], args.map (·, some .boolean), fun operands => .group (.chain operator operands)⟩

/-- The phrase of rounding: the operand and a half, rounded down. -/
def roundPhrase (operands : List Phrase) : Phrase :=
  .call "floor" (operands.map fun operand => .binary .add operand (.atom (.numeral "0.5")))

/-- The phrase of a test for an interval, which names its value twice. -/
def betweenPhrase : List Phrase → Phrase
  | [value, low, high] =>
    .group (.binary .and (.binary .greaterOrEqual value low) (.binary .lessOrEqual value high))
  | _ => .atom (.numeral "")

/-- A channel from 0 to 255 as a component from 0 to 1. -/
def channelPhrase (channel : Phrase) : Phrase :=
  .binary .divide channel (.atom (.numeral "255.0"))

/-- The components of a colour; an alpha is taken as it is, and a missing one is one. -/
def colourPhrases : List Phrase → List Phrase
  | [red, green, blue] =>
    [channelPhrase red, channelPhrase green, channelPhrase blue, .atom (.numeral "1.0")]
  | [red, green, blue, alpha] => [channelPhrase red, channelPhrase green, channelPhrase blue, alpha]
  | others => others

/-- The one type of the outputs of a call. -/
def outputTypes (args : List Node) (types : Except ExpressionError TypeSet)
    (hint : Option TypeSet) : Except ExpressionError TypeSet := do
  let output := Operator.narrow (← types) hint
  Term.requireUnique (Node.terms args) output
  return output

/-- The blend of two outputs over the segment between two stops. -/
def segmentPhrase (input power below above low high : Phrase) : Phrase :=
  .call "mix" [below, above,
    .call "pow" [
      .call "clamp" [
        .binary .divide (.group (.binary .subtract input low))
          (.group (.binary .subtract high low)),
        .atom (.numeral "0.0"), .atom (.numeral "1.0")],
      power]]

/-- The blends over further segments, given the two stops and the output of each. -/
def rampPhrase (input power : Phrase) : Phrase → List Phrase → Phrase
  | below, low :: high :: above :: rest =>
    rampPhrase input power (segmentPhrase input power below above low high) rest
  | below, _ => below

/-- The phrase of an interpolation with a given exponent. -/
def interpolationPhrase (power : Phrase) : List Phrase → Phrase
  | input :: low :: below :: high :: above :: rest =>
    rampPhrase input power (segmentPhrase input power below above low high) rest
  | _ => .atom (.numeral "")

/-- The operands of the segments after a stop, which is lowered again as the start of the next. -/
def rampOperands (output : TypeSet) : Node → List (Node × Node) → List (Node × Option TypeSet)
  | _, [] => []
  | start, (stop, value) :: rest =>
    (start, none) :: (stop, none) :: (value, some output) :: rampOperands output stop rest

/-- Two or more stops with their outputs, and the input that moves between them. -/
def ofInterpolation (args : List Node) (hint : Option TypeSet) : Except ExpressionError Plan := do
  Term.requireEven (Node.terms args)
  Term.requireAtLeast (Node.terms args) 6
  match args with
  | kind :: input :: stops =>
    let power ← Operator.Interpolate.exponent kind.term
    let output ← outputTypes args (Operator.Interpolate.returns (Node.terms args)) hint
    match Operator.pairs stops with
    | (start, first) :: (stop, value) :: rest =>
      return ⟨[],
        (input, none) :: (start, none) :: (first, some output) :: (stop, none) ::
          (value, some output) :: rampOperands output stop rest,
        interpolationPhrase (.atom (.number power))⟩
    | _ => throw (.argsMinCount 6 args.length)
  | _ => throw (.argsMinCount 6 args.length)

/-- The choice of the first output whose test holds. The phrases come in the reverse of the order in
which they are lowered, so the first pair comes first and the fallback last. -/
def choicePhrase (test : Phrase → Phrase) : List Phrase → Phrase
  | value :: candidate :: rest =>
    .group (.conditional (test candidate) value (choicePhrase test rest))
  | [fallback] => fallback
  | [] => .atom (.numeral "")

/-- The pairs of a choice from the last to the first, each test before its output. -/
def choiceOperands (output : TypeSet) : List (Node × Node) → List (Node × Option TypeSet)
  | [] => []
  | (candidate, value) :: rest =>
    choiceOperands output rest ++ [(candidate, none), (value, some output)]

/-- The phrase of a match: each candidate is compared with the input. -/
def matchPhrase : List Phrase → Phrase
  | input :: rest => choicePhrase (.binary .equal input) rest.reverse
  | [] => .atom (.numeral "")

/-- An input, pairs of a candidate and an output, and a fallback. -/
def ofMatch (args : List Node) (hint : Option TypeSet) : Except ExpressionError Plan := do
  Term.requireEven (Node.terms args)
  Term.requireAtLeast (Node.terms args) 4
  let output ← outputTypes args (Operator.Match.returns (Node.terms args)) hint
  match args, args.getLast? with
  | input :: rest, some fallback =>
    return ⟨[],
      (input, none) :: (fallback, some output) ::
        choiceOperands output (Operator.pairs rest.dropLast),
      matchPhrase⟩
  | _, _ => throw (.argsMinCount 4 args.length)

/-- Pairs of a condition and an output, and a fallback. -/
def ofCase (args : List Node) (hint : Option TypeSet) : Except ExpressionError Plan := do
  Term.requireOdd (Node.terms args)
  Term.requireAtLeast (Node.terms args) 3
  let output ← outputTypes args (Operator.Case.returns (Node.terms args)) hint
  match args.getLast? with
  | some fallback =>
    let branches := Operator.pairs args.dropLast
    Term.requireBooleans (branches.map (·.1.term))
    return ⟨[], (fallback, some output) :: choiceOperands output branches,
      fun phrases => choicePhrase id phrases.reverse⟩
  | none => throw (.argsMinCount 3 args.length)

section Inversion

variable {args : List Node} {hint : Option TypeSet} {plan : Plan} {build : List Phrase → Phrase}

/-- A plan for numbers lowers all arguments as numbers. -/
theorem ofNumbers_ok (h : ofNumbers args build = .ok plan) :
    Term.requireNumbers (Node.terms args) = .ok () ∧
      plan = ⟨[], args.map (·, some .number), build⟩ := by
  obtain ⟨_, hNumbers, h⟩ := bind_eq_ok h
  cases h
  exact ⟨hNumbers, rfl⟩

theorem ofCount_ok {count : Nat} (h : ofCount count args build = .ok plan) :
    args.length = count ∧ ofNumbers args build = .ok plan := by
  obtain ⟨_, hCount, h⟩ := bind_eq_ok h
  exact ⟨length_of_requireCount hCount, h⟩

theorem ofRange_ok {least most : Nat} (h : ofRange least most args build = .ok plan) :
    least ≤ args.length ∧ args.length ≤ most ∧ ofNumbers args build = .ok plan := by
  obtain ⟨_, hLeast, h⟩ := bind_eq_ok h
  obtain ⟨_, hMost, h⟩ := bind_eq_ok h
  exact ⟨le_length_of_requireAtLeast hLeast, length_le_of_requireAtMost hMost, h⟩

theorem ofNumericChain_ok {operator : BinaryOperator}
    (h : ofNumericChain operator args = .ok plan) :
    2 ≤ args.length ∧
      ofNumbers args (fun operands => .group (.chain operator operands)) = .ok plan := by
  obtain ⟨_, hLeast, h⟩ := bind_eq_ok h
  exact ⟨le_length_of_requireAtLeast hLeast, h⟩

/-- A plan for a named value records the value and lowers nothing. -/
theorem ofName_ok {event : String → Event} {atom : String → Atom}
    (h : ofName event atom args = .ok plan) :
    ∃ arg name, args = [arg] ∧ arg.term.source = .string name ∧
      plan = ⟨[event name], [], fun _ => .atom (atom name)⟩ := by
  match args with
  | [] => cases h
  | [arg] =>
      obtain ⟨name, hName, h⟩ := bind_eq_ok h
      cases h
      exact ⟨arg, name, rfl, source_of_identifier hName, rfl⟩
  | _ :: _ :: _ => cases h

theorem ofView_ok {uniform : String} (h : ofView uniform args = .ok plan) :
    args = [] ∧ plan = ⟨[], [], fun _ => .atom (.uniform uniform)⟩ := by
  obtain ⟨_, hCount, h⟩ := bind_eq_ok h
  cases h
  exact ⟨List.length_eq_zero_iff.mp (length_of_requireCount hCount), rfl⟩

/-- A plan for an equality lowers both sides with the types that they share but colour. -/
theorem ofEquality_ok {operator : BinaryOperator} (h : ofEquality operator args = .ok plan) :
    ∃ left right shared, args = [left, right] ∧
      Term.commonTypes .any [left.term, right.term] = .ok shared ∧ shared.isEmpty = false ∧
      plan = ⟨[], args.map (·, some (shared &&& ~~~TypeSet.colour)),
        fun operands => .group (.chain operator operands)⟩ := by
  match args with
  | [] => cases h
  | [_] => cases h
  | [left, right] =>
      obtain ⟨shared, hShared, h⟩ := bind_eq_ok h
      cases hEmpty : shared.isEmpty with
      | true =>
          rw [if_pos hEmpty] at h
          cases h
      | false =>
          rw [if_neg (by simp [hEmpty])] at h
          cases h
          exact ⟨left, right, shared, rfl, hShared, hEmpty, rfl⟩
  | _ :: _ :: _ :: _ => cases h

theorem ofNegation_ok (h : ofNegation args = .ok plan) :
    ∃ arg, args = [arg] ∧ arg.term.requireBoolean = .ok () ∧
      plan = ⟨[], [(arg, none)], negationPhrase⟩ := by
  match args with
  | [] => cases h
  | [arg] =>
      obtain ⟨_, hBoolean, h⟩ := bind_eq_ok h
      cases h
      exact ⟨arg, rfl, hBoolean, rfl⟩
  | _ :: _ :: _ => cases h

/-- A plan for a chain of truth values lowers all of them as such. -/
theorem ofBooleanChain_ok {operator : BinaryOperator}
    (h : ofBooleanChain operator args = .ok plan) :
    2 ≤ args.length ∧ Term.requireBooleans (Node.terms args) = .ok () ∧
      plan = ⟨[], args.map (·, some .boolean),
        fun operands => .group (.chain operator operands)⟩ := by
  obtain ⟨_, hLeast, h⟩ := bind_eq_ok h
  obtain ⟨_, hBooleans, h⟩ := bind_eq_ok h
  cases h
  exact ⟨le_length_of_requireAtLeast hLeast, hBooleans, rfl⟩

/-- The outputs of a call have just one type that its hint leaves room for. -/
theorem outputTypes_ok {types : Except ExpressionError TypeSet} {output : TypeSet}
    (h : outputTypes args types hint = .ok output) :
    ∃ own, types = .ok own ∧ output = Operator.narrow own hint ∧ output.isUnique := by
  obtain ⟨own, hOwn, h⟩ := bind_eq_ok h
  obtain ⟨_, hUnique, h⟩ := bind_eq_ok h
  cases h
  refine ⟨own, hOwn, rfl, ?_⟩
  rw [Term.requireUnique] at hUnique
  by_cases hOne : (Operator.narrow own hint).isUnique
  · exact hOne
  · rw [if_neg hOne] at hUnique
    cases hUnique

/-- A plan for an interpolation lowers its input and its first two stops, then the others as a
ramp. -/
theorem ofInterpolation_ok (h : ofInterpolation args hint = .ok plan) :
    ∃ kind input stops power output start first stop value rest, args = kind :: input :: stops ∧
      args.length % 2 = 0 ∧ Operator.Interpolate.exponent kind.term = .ok power ∧
      outputTypes args (Operator.Interpolate.returns (Node.terms args)) hint = .ok output ∧
      Operator.pairs stops = (start, first) :: (stop, value) :: rest ∧
      plan = ⟨[],
        (input, none) :: (start, none) :: (first, some output) :: (stop, none) ::
          (value, some output) :: rampOperands output stop rest,
        interpolationPhrase (.atom (.number power))⟩ := by
  obtain ⟨_, hEven, h⟩ := bind_eq_ok h
  obtain ⟨_, _, h⟩ := bind_eq_ok h
  match args with
  | [] => cases h
  | [_] => cases h
  | kind :: input :: stops =>
      obtain ⟨power, hPower, h⟩ := bind_eq_ok h
      obtain ⟨output, hOutput, h⟩ := bind_eq_ok h
      match hPairs : Operator.pairs stops with
      | [] =>
          rw [hPairs] at h
          cases h
      | [_] =>
          rw [hPairs] at h
          cases h
      | (start, first) :: (stop, value) :: rest =>
          rw [hPairs] at h
          cases h
          exact ⟨kind, input, stops, power, output, start, first, stop, value, rest, rfl,
            even_of_requireEven hEven, hPower, hOutput, hPairs, rfl⟩

/-- A plan for a match lowers its input, its fallback and then its pairs. -/
theorem ofMatch_ok (h : ofMatch args hint = .ok plan) :
    ∃ input rest fallback output, args = input :: rest ∧ args.length % 2 = 0 ∧
      args.getLast? = some fallback ∧
      outputTypes args (Operator.Match.returns (Node.terms args)) hint = .ok output ∧
      plan = ⟨[], (input, none) :: (fallback, some output) ::
        choiceOperands output (Operator.pairs rest.dropLast), matchPhrase⟩ := by
  obtain ⟨_, hEven, h⟩ := bind_eq_ok h
  obtain ⟨_, _, h⟩ := bind_eq_ok h
  obtain ⟨output, hOutput, h⟩ := bind_eq_ok h
  match args with
  | [] => cases h
  | input :: rest =>
      cases hLast : (input :: rest).getLast? with
      | none => exact absurd (List.getLast?_eq_none_iff.mp hLast) (List.cons_ne_nil _ _)
      | some fallback =>
          simp only [hLast] at h
          cases h
          exact ⟨input, rest, fallback, output, rfl, even_of_requireEven hEven, rfl, hOutput, rfl⟩

/-- The tests of a case that has a plan may all be truth values. -/
theorem ofCase_conditions (h : ofCase args hint = .ok plan) :
    Term.requireBooleans ((Operator.pairs args.dropLast).map (·.1.term)) = .ok () := by
  obtain ⟨_, _, h⟩ := bind_eq_ok h
  obtain ⟨_, _, h⟩ := bind_eq_ok h
  obtain ⟨_, _, h⟩ := bind_eq_ok h
  cases hLast : args.getLast? with
  | none =>
      rw [hLast] at h
      cases h
  | some fallback =>
      rw [hLast] at h
      obtain ⟨_, hConditions, _⟩ := bind_eq_ok h
      exact hConditions

/-- A plan for a case lowers its fallback and then its pairs. -/
theorem ofCase_ok (h : ofCase args hint = .ok plan) :
    ∃ fallback output, args.length % 2 = 1 ∧ args.getLast? = some fallback ∧
      outputTypes args (Operator.Case.returns (Node.terms args)) hint = .ok output ∧
      plan = ⟨[], (fallback, some output) :: choiceOperands output (Operator.pairs args.dropLast),
        fun phrases => choicePhrase id phrases.reverse⟩ := by
  obtain ⟨_, hOdd, h⟩ := bind_eq_ok h
  obtain ⟨_, _, h⟩ := bind_eq_ok h
  obtain ⟨output, hOutput, h⟩ := bind_eq_ok h
  cases hLast : args.getLast? with
  | none =>
      rw [hLast] at h
      cases h
  | some fallback =>
      rw [hLast] at h
      obtain ⟨_, _, h⟩ := bind_eq_ok h
      cases h
      exact ⟨fallback, output, odd_of_requireOdd hOdd, rfl, hOutput, rfl⟩

end Inversion

end Plan

/-- The plan of a call, or what is wrong with its arguments. -/
def Builtin.plan (b : Builtin) (args : List Node) (hint : Option TypeSet) :
    Except ExpressionError Plan :=
  match b with
  | .get => Plan.ofName .attributeRef .attributeRef args
  | .var => Plan.ofName .variableRef (fun name => .uniform (Glsl.uniformName name)) args
  | .time => Plan.ofView "u_time" args
  | .zoom => Plan.ofView "u_zoom" args
  | .resolution => Plan.ofView "u_resolution" args
  | .multiply => Plan.ofNumericChain .multiply args
  | .divide => Plan.ofNumericPair .divide args
  | .add => Plan.ofNumericChain .add args
  | .subtract => Plan.ofNumericPair .subtract args
  | .clamp => Plan.ofCount 3 args (.call "clamp")
  | .modulo => Plan.ofCount 2 args (.call "mod")
  | .power => Plan.ofCount 2 args (.call "pow")
  | .abs => Plan.ofCount 1 args (.call "abs")
  | .floor => Plan.ofCount 1 args (.call "floor")
  | .round => Plan.ofCount 1 args Plan.roundPhrase
  | .ceil => Plan.ofCount 1 args (.call "ceil")
  | .sin => Plan.ofCount 1 args (.call "sin")
  | .cos => Plan.ofCount 1 args (.call "cos")
  | .atan => Plan.ofRange 1 2 args (.call "atan")
  | .greater => Plan.ofNumericPair .greater args
  | .greaterOrEqual => Plan.ofNumericPair .greaterOrEqual args
  | .less => Plan.ofNumericPair .less args
  | .lessOrEqual => Plan.ofNumericPair .lessOrEqual args
  | .equal => Plan.ofEquality .equal args
  | .notEqual => Plan.ofEquality .notEqual args
  | .not => Plan.ofNegation args
  | .all => Plan.ofBooleanChain .and args
  | .any => Plan.ofBooleanChain .or args
  | .between => Plan.ofCount 3 args Plan.betweenPhrase
  | .array => Plan.ofRange 2 4 args Phrase.vector
  | .colour => Plan.ofRange 3 4 args fun operands => Phrase.vector (Plan.colourPhrases operands)
  | .interpolate => Plan.ofInterpolation args hint
  | .matching => Plan.ofMatch args hint
  | .casewise => Plan.ofCase args hint

end PointStyle
