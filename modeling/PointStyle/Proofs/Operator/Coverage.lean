import PointStyle.Proofs.Operator.Plan

/-! What a call looks at. A plan lowers nothing but arguments of the call, and it lowers all of them
except the two kinds that are read as they are written: the name of an input and the kind of an
interpolation. Of its own it records only the input that it names. -/
namespace PointStyle

open Lowering Glsl

namespace Expression

mutual

/-- The parts of an expression, itself included. -/
def parts : Expression → List Expression
  | .number x => [.number x]
  | .bool b => [.bool b]
  | .string s => [.string s]
  | .numberArray xs => [.numberArray xs]
  | .call operator args => .call operator args :: partsAll args

def partsAll : List Expression → List Expression
  | [] => []
  | e :: rest => parts e ++ partsAll rest

end

theorem mem_partsAll {part : Expression} {args : List Expression} :
    part ∈ partsAll args ↔ ∃ arg ∈ args, part ∈ arg.parts := by
  induction args with
  | nil => simp [partsAll]
  | cons e rest ih => simp [partsAll, ih]

end Expression

/-- The call that an event is recorded for. -/
def Lowering.Event.call? : Event → Option Expression
  | .attributeRef name => some (.call "get" [.string name])
  | .variableRef name => some (.call "var" [.string name])
  | .literalCode _ | .trace _ => none

/-- No part of the expression is a call that something is recorded for. -/
def Expression.IsSilent (e : Expression) : Prop :=
  ∀ event : Event, ∀ call ∈ event.call?, call ∉ e.parts

namespace Lowering.Event

/-- An event stands for a call that reads an attribute or a variable. -/
theorem exists_of_call? {event : Event} {call : Expression} (h : call ∈ event.call?) :
    ∃ name, (event = .attributeRef name ∧ call = .call "get" [.string name]) ∨
      (event = .variableRef name ∧ call = .call "var" [.string name]) := by
  cases event with
  | attributeRef name => exact ⟨name, .inl ⟨rfl, (Option.some.inj h).symm⟩⟩
  | variableRef name => exact ⟨name, .inr ⟨rfl, (Option.some.inj h).symm⟩⟩
  | literalCode _ => cases h
  | trace _ => cases h

end Lowering.Event

/-- The plan lowers the arguments, and leaves out none that something is recorded for. -/
structure Plan.Covers (plan : Plan) (args : List Node) : Prop where
  only : ∀ operand ∈ plan.operands, operand.1 ∈ args
  every : ∀ arg ∈ args, (∃ hint, (arg, hint) ∈ plan.operands) ∨ arg.term.source.IsSilent

namespace Plan

variable {args : List Node} {plan : Plan} {build : List Phrase → Phrase} {hint : Option TypeSet}

/-- The plan records nothing of its own. -/
def IsQuiet (plan : Plan) (args : List Node) : Prop :=
  plan.events = [] ∧ plan.Covers args

/-- A plan that lowers all its arguments under one hint and records nothing itself is quiet. -/
theorem isQuiet_map (args : List Node) (hint : Option TypeSet) (build : List Phrase → Phrase) :
    IsQuiet ⟨[], args.map (·, hint), build⟩ args := by
  refine ⟨rfl, fun operand hOperand => ?_, fun arg hArg => .inl ⟨hint, List.mem_map_of_mem hArg⟩⟩
  obtain ⟨arg, hArg, rfl⟩ := List.mem_map.mp hOperand
  exact hArg

theorem ofNumbers_isQuiet (h : ofNumbers args build = .ok plan) : plan.IsQuiet args := by
  obtain ⟨_, rfl⟩ := ofNumbers_ok h
  exact isQuiet_map args _ build

theorem ofBooleanChain_isQuiet {operator : BinaryOperator}
    (h : ofBooleanChain operator args = .ok plan) : plan.IsQuiet args := by
  obtain ⟨_, _, rfl⟩ := ofBooleanChain_ok h
  exact isQuiet_map args _ _

theorem ofView_isQuiet {uniform : String} (h : ofView uniform args = .ok plan) :
    plan.IsQuiet args := by
  obtain ⟨rfl, rfl⟩ := ofView_ok h
  exact isQuiet_map [] none _

theorem ofNegation_isQuiet (h : ofNegation args = .ok plan) : plan.IsQuiet args := by
  obtain ⟨arg, rfl, _, rfl⟩ := ofNegation_ok h
  exact isQuiet_map [arg] none _

theorem ofEquality_isQuiet {operator : BinaryOperator} (h : ofEquality operator args = .ok plan) :
    plan.IsQuiet args := by
  obtain ⟨left, right, _, _, _, _, rfl⟩ := ofEquality_ok h
  exact isQuiet_map args _ _

/-- What a choice lowers are its tests without a hint and its outputs with their type. -/
theorem mem_choiceOperands {output : TypeSet} {branches : List (Node × Node)}
    {operand : Node × Option TypeSet} :
    operand ∈ choiceOperands output branches ↔
      ∃ pair ∈ branches, operand = (pair.1, none) ∨ operand = (pair.2, some output) := by
  induction branches with
  | nil => simp [choiceOperands]
  | cons pair rest ih => simp [choiceOperands, ih, or_comm]

/-- The pairs of a choice are lowered, and so is the fallback after them. -/
theorem covers_choice (build : List Phrase → Phrase) (first : List (Node × Option TypeSet))
    (output : TypeSet) (fallback : Node) {branches : List Node} (hEven : branches.length % 2 = 0) :
    Covers ⟨[],
      first ++ (fallback, some output) :: choiceOperands output (Operator.pairs branches), build⟩
      (first.map (·.1) ++ (branches ++ [fallback])) := by
  constructor
  · intro operand hOperand
    rcases List.mem_append.mp hOperand with hFirst | hOperand
    · exact List.mem_append_left _ (List.mem_map_of_mem hFirst)
    · refine List.mem_append_right _ ?_
      rcases List.mem_cons.mp hOperand with rfl | hOperand
      · exact List.mem_append_right _ (List.mem_singleton_self _)
      · obtain ⟨pair, hPair, hOperand⟩ := mem_choiceOperands.mp hOperand
        obtain ⟨hCandidate, hValue⟩ := Operator.mem_of_mem_pairs hPair
        rcases hOperand with rfl | rfl
        · exact List.mem_append_left _ hCandidate
        · exact List.mem_append_left _ hValue
  · intro arg hArg
    refine .inl ?_
    rcases List.mem_append.mp hArg with hFirst | hArg
    · obtain ⟨operand, hOperand, rfl⟩ := List.mem_map.mp hFirst
      exact ⟨operand.2, List.mem_append_left _ hOperand⟩
    · rcases List.mem_append.mp hArg with hBranch | hLast
      · obtain ⟨pair, hPair, hArg⟩ := Operator.exists_mem_pairs hEven hBranch
        rcases hArg with rfl | rfl
        · refine ⟨none, List.mem_append_right _ (List.mem_cons_of_mem _ ?_)⟩
          exact mem_choiceOperands.mpr ⟨pair, hPair, .inl rfl⟩
        · refine ⟨some output, List.mem_append_right _ (List.mem_cons_of_mem _ ?_)⟩
          exact mem_choiceOperands.mpr ⟨pair, hPair, .inr rfl⟩
      · rw [List.mem_singleton.mp hLast]
        exact ⟨some output, List.mem_append_right _ (List.mem_cons_self ..)⟩

theorem dropLast_append_getLast? {fallback : Node} (h : args.getLast? = some fallback) :
    args.dropLast ++ [fallback] = args := by
  obtain ⟨earlier, rfl⟩ := List.getLast?_eq_some_iff.mp h
  rw [List.dropLast_concat]

theorem ofMatch_isQuiet (h : ofMatch args hint = .ok plan) : plan.IsQuiet args := by
  obtain ⟨input, rest, fallback, output, rfl, hEven, hLast, _, rfl⟩ := ofMatch_ok h
  cases rest with
  | nil => cases hEven
  | cons second rest =>
      have hFallback : (second :: rest).getLast? = some fallback := hLast
      have hBranches : (second :: rest).dropLast.length % 2 = 0 := by
        simp only [List.length_dropLast, List.length_cons] at hEven ⊢
        omega
      have hCovers := covers_choice matchPhrase [(input, none)] output fallback hBranches
      rw [dropLast_append_getLast? hFallback] at hCovers
      exact ⟨rfl, hCovers⟩

theorem ofCase_isQuiet (h : ofCase args hint = .ok plan) : plan.IsQuiet args := by
  obtain ⟨fallback, output, hOdd, hLast, _, rfl⟩ := ofCase_ok h
  have hBranches : args.dropLast.length % 2 = 0 := by
    rw [List.length_dropLast]
    omega
  have hCovers :=
    covers_choice (fun phrases => choicePhrase id phrases.reverse) [] output fallback hBranches
  rw [dropLast_append_getLast? hLast] at hCovers
  exact ⟨rfl, hCovers⟩

/-- A ramp lowers only its stops and outputs. -/
theorem mem_of_mem_rampOperands {output : TypeSet} {start : Node} {stops : List (Node × Node)}
    {operand : Node × Option TypeSet} (h : operand ∈ rampOperands output start stops) :
    operand.1 = start ∨ ∃ pair ∈ stops, operand.1 = pair.1 ∨ operand.1 = pair.2 := by
  induction stops generalizing start with
  | nil => cases h
  | cons pair rest ih =>
      simp only [rampOperands, List.mem_cons] at h
      rcases h with rfl | rfl | rfl | h
      · exact .inl rfl
      · exact .inr ⟨pair, List.mem_cons_self .., .inl rfl⟩
      · exact .inr ⟨pair, List.mem_cons_self .., .inr rfl⟩
      · rcases ih h with hStart | ⟨other, hOther, hEq⟩
        · exact .inr ⟨pair, List.mem_cons_self .., .inl hStart⟩
        · exact .inr ⟨other, List.mem_cons_of_mem _ hOther, hEq⟩

/-- A ramp lowers each of its stops and outputs. -/
theorem mem_rampOperands (output : TypeSet) (start : Node) {stops : List (Node × Node)}
    {pair : Node × Node} (h : pair ∈ stops) :
    (pair.1, none) ∈ rampOperands output start stops ∧
      (pair.2, some output) ∈ rampOperands output start stops := by
  induction stops generalizing start with
  | nil => cases h
  | cons other rest ih =>
      rcases List.mem_cons.mp h with rfl | h
      · simp [rampOperands]
      · obtain ⟨hStop, hValue⟩ := ih other.1 h
        simp [rampOperands, hStop, hValue]

/-- The kind of an interpolation reads no attribute and no variable. -/
theorem isSilent_kind {kind : Term} {power : Float}
    (h : Operator.Interpolate.exponent kind = .ok power) : kind.source.IsSilent := by
  intro event call hCall hPart
  obtain ⟨name, hCase⟩ := Event.exists_of_call? hCall
  have hEases := Operator.Interpolate.eases_of_exponent h
  generalize kind.source = source at hEases hPart
  cases hEases with
  | linear =>
      simp only [Expression.parts, Expression.partsAll, List.mem_singleton] at hPart
      rcases hCase with ⟨_, rfl⟩ | ⟨_, rfl⟩ <;> simp at hPart
  | exponential _ =>
      simp only [Expression.parts, Expression.partsAll, List.mem_cons, List.append_nil,
        List.not_mem_nil, or_false] at hPart
      rcases hCase with ⟨_, rfl⟩ | ⟨_, rfl⟩ <;> simp at hPart

/-- An interpolation records nothing itself, and leaves out only its kind, which is silent. -/
theorem ofInterpolation_isQuiet (h : ofInterpolation args hint = .ok plan) : plan.IsQuiet args := by
  obtain ⟨kind, input, stops, power, output, start, first, stop, value, rest, rfl, hEven, hPower, _,
    hPairs, rfl⟩ := ofInterpolation_ok h
  have hEven : stops.length % 2 = 0 := by
    simp only [List.length_cons] at hEven
    omega
  have hMem : ∀ pair ∈ (start, first) :: (stop, value) :: rest, pair.1 ∈ stops ∧ pair.2 ∈ stops :=
    fun pair hPair => Operator.mem_of_mem_pairs (hPairs ▸ hPair)
  refine ⟨rfl, fun operand hOperand => ?_, fun arg hArg => ?_⟩
  · have hStart := hMem (start, first) (by simp)
    have hStop := hMem (stop, value) (by simp)
    simp only [List.mem_cons] at hOperand ⊢
    rcases hOperand with rfl | rfl | rfl | rfl | rfl | hOperand
    · exact .inr (.inl rfl)
    · exact .inr (.inr hStart.1)
    · exact .inr (.inr hStart.2)
    · exact .inr (.inr hStop.1)
    · exact .inr (.inr hStop.2)
    · rcases mem_of_mem_rampOperands hOperand with hEq | ⟨pair, hPair, hEq | hEq⟩
      · exact .inr (.inr (hEq ▸ hStop.1))
      · exact .inr (.inr (hEq ▸ (hMem pair (by simp [hPair])).1))
      · exact .inr (.inr (hEq ▸ (hMem pair (by simp [hPair])).2))
  · rcases List.mem_cons.mp hArg with rfl | hArg
    · exact .inr (isSilent_kind hPower)
    · refine .inl ?_
      rcases List.mem_cons.mp hArg with rfl | hArg
      · exact ⟨none, List.mem_cons_self ..⟩
      · obtain ⟨pair, hPair, hArg⟩ := Operator.exists_mem_pairs hEven hArg
        rw [hPairs, List.mem_cons, List.mem_cons] at hPair
        rcases hPair with rfl | rfl | hPair
        · rcases hArg with rfl | rfl
          · exact ⟨none, by simp⟩
          · exact ⟨some output, by simp⟩
        · rcases hArg with rfl | rfl
          · exact ⟨none, by simp⟩
          · exact ⟨some output, by simp⟩
        · obtain ⟨hStop, hValue⟩ := mem_rampOperands output stop hPair
          rcases hArg with rfl | rfl
          · exact ⟨none, by simp [hStop]⟩
          · exact ⟨some output, by simp [hValue]⟩

/-- The plan covers the arguments, and of its own it records just the call if that is recorded. -/
structure Accounts (plan : Plan) (name : String) (args : List Node) : Prop
    extends plan.Covers args where
  events : ∀ event : Event, ∀ call ∈ event.call?,
    (event ∈ plan.events ↔ call = .call name (Term.sources (Node.terms args)))

/-- A quiet plan accounts for its call unless the call itself reads an input. -/
theorem IsQuiet.accounts {name : String} (h : plan.IsQuiet args) (hGet : name ≠ "get")
    (hVar : name ≠ "var") : plan.Accounts name args := by
  refine ⟨h.2, fun event call hCall => ?_⟩
  rw [h.1]
  obtain ⟨_, ⟨_, rfl⟩ | ⟨_, rfl⟩⟩ := Event.exists_of_call? hCall
  · simp [Ne.symm hGet]
  · simp [Ne.symm hVar]

/-- A plan for a named value accounts for its call by the event that it records. -/
theorem ofName_accounts {event : String → Event} {atom : String → Atom} {name : String}
    (hEvent : ∀ input, (event input).call? = some (.call name [.string input]))
    (hInjective : ∀ other : Event, ∀ input, .call name [.string input] ∈ other.call? →
      other = event input)
    (h : ofName event atom args = .ok plan) : plan.Accounts name args := by
  obtain ⟨arg, input, rfl, hSource, rfl⟩ := ofName_ok h
  refine ⟨⟨fun _ hOperand => absurd hOperand List.not_mem_nil, fun other hOther => ?_⟩,
    fun other call hCall => ?_⟩
  · rw [List.mem_singleton.mp hOther, hSource]
    refine .inr fun event call hCall hPart => ?_
    obtain ⟨_, ⟨_, rfl⟩ | ⟨_, rfl⟩⟩ := Event.exists_of_call? hCall <;>
      simp [Expression.parts] at hPart
  · simp only [Node.terms, Term.sources, List.map_singleton, hSource, List.mem_singleton]
    constructor
    · rintro rfl
      rw [hEvent] at hCall
      exact (Option.some.inj hCall).symm
    · rintro rfl
      exact hInjective other input hCall

end Plan

/-- Every plan accounts for its arguments and for itself. -/
theorem Builtin.plan_accounts {b : Builtin} {args : List Node} {hint : Option TypeSet} {plan : Plan}
    (h : b.plan args hint = .ok plan) : plan.Accounts b.name args := by
  have hQuiet (hGet : b ≠ .get) (hVar : b ≠ .var) : plan.IsQuiet args := by
    cases b with
    | get => exact absurd rfl hGet
    | var => exact absurd rfl hVar
    | time | zoom | resolution => exact Plan.ofView_isQuiet h
    | multiply | add => exact Plan.ofNumbers_isQuiet (Plan.ofNumericChain_ok h).2
    | divide | subtract | clamp | modulo | power | abs | floor | round | ceil | sin | cos | greater
    | greaterOrEqual | less | lessOrEqual | between =>
        exact Plan.ofNumbers_isQuiet (Plan.ofCount_ok h).2
    | atan | array | colour => exact Plan.ofNumbers_isQuiet (Plan.ofRange_ok h).2.2
    | equal | notEqual => exact Plan.ofEquality_isQuiet h
    | not => exact Plan.ofNegation_isQuiet h
    | all | any => exact Plan.ofBooleanChain_isQuiet h
    | interpolate => exact Plan.ofInterpolation_isQuiet h
    | matching => exact Plan.ofMatch_isQuiet h
    | casewise => exact Plan.ofCase_isQuiet h
  by_cases hGet : b = .get
  · subst hGet
    refine Plan.ofName_accounts (fun _ => rfl) (fun other input hCall => ?_) h
    obtain ⟨_, ⟨rfl, hEq⟩ | ⟨_, hEq⟩⟩ := Event.exists_of_call? hCall <;> simp [name] at hEq
    rw [hEq]
  · by_cases hVar : b = .var
    · subst hVar
      refine Plan.ofName_accounts (fun _ => rfl) (fun other input hCall => ?_) h
      obtain ⟨_, ⟨_, hEq⟩ | ⟨rfl, hEq⟩⟩ := Event.exists_of_call? hCall <;> simp [name] at hEq
      rw [hEq]
    · have hNames : ∀ {other : Builtin}, b ≠ other → b.name ≠ other.name := fun hNe hName =>
        hNe (eq_of_name_eq hName)
      exact (hQuiet hGet hVar).accounts (hNames hGet) (hNames hVar)

end PointStyle
