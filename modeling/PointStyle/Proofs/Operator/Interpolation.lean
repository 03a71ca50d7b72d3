import Mathlib.Algebra.Order.Field.Basic
import Mathlib.Algebra.Order.Field.Rat
import Mathlib.Algebra.Order.Pi
import Mathlib.Data.List.Basic
import Mathlib.Tactic.FieldSimp
import Mathlib.Tactic.Linarith
import Mathlib.Tactic.Ring
import PointStyle.Proofs.Lowering.Parts

/-! Interpolation hits its stops. The chain of an interpolation mixes the outputs over one segment
after the other. Left of a segment its factor vanishes and right of it the factor is one, so with
stops in increasing order all but one of the segments drop out. -/
namespace PointStyle

open Lowering Glsl

namespace Interpolation

variable {ι : Type}

/-- The mix of two values, component by component. -/
def mix (below above t : ι → ℚ) : ι → ℚ :=
  below * (1 - t) + above * t

theorem mix_zero (below above : ι → ℚ) : mix below above 0 = below := by
  simp [mix]

theorem mix_one (below above : ι → ℚ) : mix below above 1 = above := by
  simp [mix]

/-- How far a number is on its way from one stop to another. -/
def progress (x low high : ℚ) : ℚ :=
  min (max ((x - low) / (high - low)) 0) 1

section Progress

variable {x low high : ℚ}

/-- Before a segment there is no progress. -/
theorem progress_of_le (hLess : low < high) (hx : x ≤ low) : progress x low high = 0 := by
  have hNonpos : (x - low) / (high - low) ≤ 0 :=
    div_nonpos_of_nonpos_of_nonneg (by linarith) (by linarith)
  rw [progress, max_eq_right hNonpos, min_eq_left zero_le_one]

/-- After a segment the progress is complete. -/
theorem progress_of_ge (hLess : low < high) (hx : high ≤ x) : progress x low high = 1 := by
  have hOne : 1 ≤ (x - low) / (high - low) := (one_le_div (by linarith)).mpr (by linarith)
  rw [progress, max_eq_left (zero_le_one.trans hOne), min_eq_right hOne]

/-- Within a segment the progress is the share of it that is behind. -/
theorem progress_of_mem (hLess : low < high) (hLow : low ≤ x) (hHigh : x ≤ high) :
    progress x low high = (x - low) / (high - low) := by
  have hNonneg : 0 ≤ (x - low) / (high - low) := div_nonneg (by linarith) (by linarith)
  have hOne : (x - low) / (high - low) ≤ 1 := (div_le_one (by linarith)).mpr (by linarith)
  rw [progress, max_eq_left hNonneg, min_eq_left hOne]

end Progress

/-- A stop and its value. -/
abbrev Knot (ι : Type) := ℚ × (ι → ℚ)

/-- Goes on from a stop through the stops after it. -/
def ramp (ease : ℚ → ℚ) (x : ℚ) : (ι → ℚ) → ℚ → List (Knot ι) → ι → ℚ
  | below, _, [] => below
  | below, low, (high, above) :: rest =>
    ramp ease x (mix below above fun _ => ease (progress x low high)) high rest

/-- The value that the chain of some stops has at a number. -/
def along (ease : ℚ → ℚ) (x : ℚ) : List (Knot ι) → ι → ℚ
  | [] => 0
  | (low, below) :: rest => ramp ease x below low rest

/-- Stops in strictly increasing order. -/
def IsIncreasing (knots : List (Knot ι)) : Prop :=
  knots.Pairwise (·.1 < ·.1)

/-- The value is that of the first stop before it, that of the last stop after it, and in between it
goes from each stop to the next. -/
structure IsPiecewise (ease : ℚ → ℚ) (x : ℚ) (knots : List (Knot ι)) (value : ι → ℚ) : Prop where
  before : ∀ first ∈ knots.head?, x ≤ first.1 → value = first.2
  after : ∀ last ∈ knots.getLast?, last.1 ≤ x → value = last.2
  between : ∀ k (hk : k + 1 < knots.length), knots[k].1 ≤ x → x ≤ knots[k + 1].1 →
    value = mix knots[k].2 knots[k + 1].2
      fun _ => ease ((x - knots[k].1) / (knots[k + 1].1 - knots[k].1))
  hits : ∀ k (hk : k < knots.length), x = knots[k].1 → value = knots[k].2

section Chain

variable {ease : ℚ → ℚ} {x : ℚ}

/-- The segments after a number vanish. -/
theorem ramp_of_le (hZero : ease 0 = 0) (below : ι → ℚ) {knot : Knot ι} {rest : List (Knot ι)}
    (hIncreasing : IsIncreasing (knot :: rest)) (hx : x ≤ knot.1) :
    ramp ease x below knot.1 rest = below := by
  induction rest generalizing knot below with
  | nil => rfl
  | cons next rest ih =>
      obtain ⟨hFirst, hRest⟩ := List.pairwise_cons.mp hIncreasing
      have hLess := hFirst next List.mem_cons_self
      rw [ramp, progress_of_le hLess hx, hZero]
      exact (ih _ hRest (hx.trans hLess.le)).trans (mix_zero below next.2)

/-- A segment before a number drops out. -/
theorem along_cons_cons (hOne : ease 1 = 1) {first second : Knot ι} (rest : List (Knot ι))
    (hLess : first.1 < second.1) (hx : second.1 ≤ x) :
    along ease x (first :: second :: rest) = along ease x (second :: rest) := by
  rw [along, ramp, progress_of_ge hLess hx, hOne, show (fun _ : ι => (1 : ℚ)) = 1 from rfl, mix_one]
  rfl

/-- What lies before a knot that has been passed does not matter. -/
theorem along_append (hOne : ease 1 = 1) {before after : List (Knot ι)} {knot : Knot ι}
    (hIncreasing : IsIncreasing (before ++ knot :: after)) (hx : knot.1 ≤ x) :
    along ease x (before ++ knot :: after) = along ease x (knot :: after) := by
  induction before with
  | nil => rfl
  | cons first before ih =>
      obtain ⟨hFirst, hRest⟩ := List.pairwise_cons.mp hIncreasing
      rw [← ih hRest]
      cases before with
      | nil => exact along_cons_cons hOne after (hFirst knot List.mem_cons_self) hx
      | cons second before =>
          have hSecond : second.1 < knot.1 :=
            (List.pairwise_cons.mp hRest).1 knot (List.mem_append_right _ List.mem_cons_self)
          exact along_cons_cons hOne _ (hFirst second List.mem_cons_self) (hSecond.le.trans hx)

/-- Up to the first knot its output is given. -/
theorem along_of_le (hZero : ease 0 = 0) {knot : Knot ι} {rest : List (Knot ι)}
    (hIncreasing : IsIncreasing (knot :: rest)) (hx : x ≤ knot.1) :
    along ease x (knot :: rest) = knot.2 :=
  ramp_of_le hZero knot.2 hIncreasing hx

/-- A chain of increasing stops goes through them piece by piece. -/
theorem isPiecewise_along (hZero : ease 0 = 0) (hOne : ease 1 = 1) {knots : List (Knot ι)}
    (hIncreasing : IsIncreasing knots) : IsPiecewise ease x knots (along ease x knots) := by
  have hFrom : ∀ k (hk : k < knots.length), knots[k].1 ≤ x →
      IsIncreasing (knots[k] :: knots.drop (k + 1)) ∧
        along ease x knots = along ease x (knots[k] :: knots.drop (k + 1)) := by
    intro k hk hx
    have hSplit : knots.take k ++ knots[k] :: knots.drop (k + 1) = knots := by
      rw [← List.drop_eq_getElem_cons hk, List.take_append_drop]
    rw [← hSplit] at hIncreasing
    refine ⟨(List.pairwise_append.mp hIncreasing).2.1, ?_⟩
    conv_lhs => rw [← hSplit]
    exact along_append hOne hIncreasing hx
  refine ⟨fun first hFirst hx => ?_, fun last hLast hx => ?_, fun k hk hLow hHigh => ?_,
    fun k hk hx => ?_⟩
  · obtain ⟨rest, rfl⟩ := List.head?_eq_some_iff.mp hFirst
    exact along_of_le hZero hIncreasing hx
  · obtain ⟨before, rfl⟩ := List.getLast?_eq_some_iff.mp hLast
    exact along_append hOne hIncreasing hx
  · obtain ⟨hRest, hAlong⟩ := hFrom k (by omega) hLow
    rw [List.drop_eq_getElem_cons hk] at hRest hAlong
    obtain ⟨hFirst, hRest⟩ := List.pairwise_cons.mp hRest
    have hLess := hFirst _ List.mem_cons_self
    rw [hAlong, along, ramp, progress_of_mem hLess hLow hHigh]
    exact ramp_of_le hZero _ hRest hHigh
  · obtain ⟨hRest, hAlong⟩ := hFrom k hk hx.ge
    rw [hAlong, along_of_le hZero hRest hx.le]

end Chain

/-- The operators of a chain calculate exactly and component by component; what a power is, is left
open. -/
structure IsExact (meaning : Interpretation (ι → ℚ)) (pow : ℚ → ℚ → ℚ) : Prop where
  subtract : ∀ x y, meaning.binary .subtract x y = x - y
  divide : ∀ x y, meaning.binary .divide x y = x / y
  clamp : ∀ x low high, meaning.call "clamp" [x, low, high] = (x ⊔ low) ⊓ high
  power : ∀ x y, meaning.call "pow" [x, y] = fun i => pow (x i) (y i)
  mixed : ∀ x y t, meaning.call "mix" [x, y, t] = mix x y t

/-- The parts of a chain have values: the numerals their own, and the input, the exponent and the
stops are numbers, which are the same in all components. -/
structure IsValued (value : Part → ι → ℚ) (input : Expression) (power : Float)
    (stops : List (Expression × Expression)) (x exponent : ℚ) (place : Expression → ℚ) : Prop where
  zero : value (.own (.numeral "0.0")) = 0
  one : value (.own (.numeral "1.0")) = 1
  input : value (.piece input none) = fun _ => x
  exponent : value (.own (.number power)) = fun _ => exponent
  stops : ∀ stop ∈ stops, value (.piece stop.1 none) = fun _ => place stop.1

/-- The places of the stops with the values of their outputs. -/
def knotsOf (place : Expression → ℚ) (value : Part → ι → ℚ) (output : Option TypeSet)
    (stops : List (Expression × Expression)) : List (Knot ι) :=
  stops.map fun stop => (place stop.1, value (.piece stop.2 output))

section Evaluate

variable {meaning : Interpretation (ι → ℚ)} {pow : ℚ → ℚ → ℚ} {value : Part → ι → ℚ}
  {x exponent : ℚ}

/-- A segment is worth the mixture of its ends by the eased progress. -/
theorem evaluate_segmentTree (hExact : IsExact meaning pow)
    (hZero : value (.own (.numeral "0.0")) = 0) (hOne : value (.own (.numeral "1.0")) = 1)
    {input power low high : Part} {a b : ℚ} (hInput : value input = fun _ => x)
    (hPower : value power = fun _ => exponent) (hLow : value low = fun _ => a)
    (hHigh : value high = fun _ => b) (below above : SyntaxTree Part) :
    (Builtin.segmentTree Part.own (.leaf input) (.leaf power) below above (.leaf low)
        (.leaf high)).evaluate meaning value =
      mix (below.evaluate meaning value) (above.evaluate meaning value)
        fun _ => pow (progress x a b) exponent := by
  simp only [Builtin.segmentTree, SyntaxTree.evaluate, SyntaxTree.evaluateAll, hExact.subtract,
    hExact.divide, hExact.clamp, hExact.power, hExact.mixed, hInput, hPower, hLow, hHigh, hZero,
    hOne]
  rfl

/-- The chain is worth what mixing the values of the outputs gives. -/
theorem evaluate_blendTree (hExact : IsExact meaning pow) {input : Expression} {power : Float}
    (output : Option TypeSet) {stops : List (Expression × Expression)} {place : Expression → ℚ}
    (hValued : IsValued value input power stops x exponent place) (hStops : stops ≠ []) :
    (Builtin.blendTree Part.alone Part.own input power output stops).evaluate meaning value =
      along (pow · exponent) x (knotsOf place value output stops) := by
  have hRamp : ∀ (rest : List (Expression × Expression)) (below : SyntaxTree Part)
      (low : Expression), value (.piece low none) = (fun _ => place low) →
      (∀ stop ∈ rest, value (.piece stop.1 none) = fun _ => place stop.1) →
      (Builtin.rampTree Part.alone Part.own (Part.alone input none) (.leaf (.own (.number power)))
          output below low rest).evaluate meaning value =
        ramp (pow · exponent) x (below.evaluate meaning value) (place low)
          (knotsOf place value output rest) := by
    intro rest
    induction rest with
    | nil => exact fun _ _ _ _ => rfl
    | cons stop rest ih =>
        intro below low hLow hRest
        obtain ⟨hHigh, hRest⟩ := List.forall_mem_cons.mp hRest
        rw [Builtin.rampTree, ih _ _ hHigh hRest,
          evaluate_segmentTree hExact hValued.zero hValued.one hValued.input hValued.exponent
            hLow hHigh]
        rfl
  cases stops with
  | nil => exact absurd rfl hStops
  | cons stop rest =>
      obtain ⟨hStart, hRest⟩ := List.forall_mem_cons.mp hValued.stops
      exact hRamp rest _ _ hStart hRest

end Evaluate

end Interpolation

open Interpolation

namespace Composes

variable {state : State}

/-- The phrase of a segment composes the tree of the segment. -/
theorem segment {input power below above low high : Phrase} {inputPart lowPart highPart : Part}
    {powerTree belowTree aboveTree : SyntaxTree Part}
    (hInput : Composes state input (.leaf inputPart)) (hPower : Composes state power powerTree)
    (hBelow : Composes state below belowTree) (hAbove : Composes state above aboveTree)
    (hLow : Composes state low (.leaf lowPart)) (hHigh : Composes state high (.leaf highPart)) :
    Composes state (Plan.segmentPhrase input power below above low high)
      (Builtin.segmentTree Part.own (.leaf inputPart) powerTree belowTree aboveTree (.leaf lowPart)
        (.leaf highPart)) := by
  have hPosition := (hInput.binary .subtract hLow).binary .divide (hHigh.binary .subtract hLow)
  have hClamp := call "clamp"
    (.cons hPosition (.cons (own (.numeral "0.0")) (.cons (own (.numeral "1.0")) .nil)))
  exact call "mix" (.cons hBelow (.cons hAbove (.cons
    (call "pow" (.cons hClamp (.cons hPower .nil))) .nil)))

/-- Stops and outputs that are parts make a chain of blends. -/
theorem ramp {input power below : Phrase} {inputPart : Part} {powerTree belowTree : SyntaxTree Part}
    (hInput : Composes state input (.leaf inputPart)) (hPower : Composes state power powerTree)
    (hBelow : Composes state below belowTree) {output : TypeSet} {start : Node}
    {stops : List (Node × Node)}
    (hOperands : ∀ operand ∈ Plan.rampOperands output start stops,
      Composes state (operand.1.phrase operand.2) (.leaf (.ofOperand operand))) :
    Composes state
      (Plan.rampPhrase input power below
        ((Plan.rampOperands output start stops).map fun operand => operand.1.phrase operand.2))
      (Builtin.rampTree Part.alone Part.own (.leaf inputPart) powerTree (some output) belowTree
        start.source (stops.map fun stop => (stop.1.source, stop.2.source))) := by
  induction stops generalizing start below belowTree with
  | nil => exact hBelow
  | cons stop rest ih =>
      obtain ⟨hLow, hOperands⟩ := List.forall_mem_cons.mp hOperands
      obtain ⟨hHigh, hOperands⟩ := List.forall_mem_cons.mp hOperands
      obtain ⟨hAbove, hOperands⟩ := List.forall_mem_cons.mp hOperands
      exact ih (segment hInput hPower hBelow hAbove hLow hHigh) hOperands

end Composes

namespace Registry

variable {args : List Expression} {hint : Option TypeSet} {state final : State} {text : String}

/-- An interpolation that is lowered has a kind, an input and two or more stops, and its text is
made of the tree of its blend. -/
theorem lower_interpolate_ok
    (h : Registry.builtin.lower (.call Builtin.interpolate.name args) hint state = .ok text final) :
    ∃ kind input stops power types,
      args = kind :: input :: Operator.row stops ∧ 2 ≤ stops.length ∧
      kind.Eases power ∧
      Registry.builtin.infer (.call Builtin.interpolate.name args) = .ok types ∧
      IsMadeOf (.call Builtin.interpolate.name args) hint text final
        (Builtin.blendTree Part.alone Part.own input power
          (some (Operator.narrow types hint)) stops)
        (Part.spell final) := by
  obtain ⟨plan, hPlan, hOperands, hMade⟩ := lower_call_ok h
  obtain ⟨kind, input, stops, power, output, start, first, stop, value, rest, hNodes, hEven, hPower,
    hOutput, hPairs, rfl⟩ := Plan.ofInterpolation_ok hPlan
  obtain ⟨types, hTypes, rfl⟩ := Vocabulary.infer_of_outputTypes (b := .interpolate) hOutput
  obtain ⟨hInput, hOperands⟩ := List.forall_mem_cons.mp hOperands
  obtain ⟨hLow, hOperands⟩ := List.forall_mem_cons.mp hOperands
  obtain ⟨hBelow, hOperands⟩ := List.forall_mem_cons.mp hOperands
  obtain ⟨hHigh, hOperands⟩ := List.forall_mem_cons.mp hOperands
  obtain ⟨hAbove, hOperands⟩ := List.forall_mem_cons.mp hOperands
  rw [hNodes, List.length_cons, List.length_cons] at hEven
  have hStops : Plan.sourcePairs stops = (start.source, first.source) ::
      (stop.source, value.source) :: rest.map fun stop => (stop.1.source, stop.2.source) := by
    rw [Plan.sourcePairs, hPairs]
    rfl
  refine ⟨kind.source, input.source, Plan.sourcePairs stops, power, types, ?_, ?_,
    Operator.Interpolate.eases_of_exponent hPower, hTypes, hMade _ ?_⟩
  · rw [Plan.row_sourcePairs (by omega), ← Vocabulary.standard.map_source_nodes args, hNodes]
    rfl
  · rw [hStops]
    exact Nat.le_add_left 2 _
  · rw [hStops]
    exact Composes.ramp hInput (Composes.own _)
      (Composes.segment hInput (Composes.own _) hBelow hAbove hLow hHigh) hOperands

/-- Interpolation is piecewise and hits its stops. The text of an interpolation that can be lowered
is the chain over its stops, each piece of it written as it would be alone in the final state. When
the chain is calculated exactly and the stops are strictly increasing, its value is the first output
up to the first stop, the last output from the last stop on, and between two stops the mix of their
outputs by the eased way between them. -/
theorem interpolate_hits_stops
    (h : Registry.builtin.lower (.call "interpolate" args) hint state = .ok text final) :
    ∃ kind input stops power types spell,
      args = kind :: input :: Operator.row stops ∧ 2 ≤ stops.length ∧
      kind.Eases power ∧
      Registry.builtin.infer (.call "interpolate" args) = .ok types ∧
      let output := some (Operator.narrow types hint)
      let tree := Builtin.blendTree Part.alone Part.own input power output stops
      IsMadeOf (.call "interpolate" args) hint text final tree spell ∧
      ∀ (ι : Type) (meaning : Interpretation (ι → ℚ)) (pow : ℚ → ℚ → ℚ) (value : Part → ι → ℚ)
        (x exponent : ℚ) (place : Expression → ℚ),
        IsExact meaning pow → IsValued value input power stops x exponent place →
        pow 0 exponent = 0 → pow 1 exponent = 1 →
        IsIncreasing (knotsOf place value output stops) →
        IsPiecewise (pow · exponent) x (knotsOf place value output stops)
          (tree.evaluate meaning value) := by
  obtain ⟨kind, input, stops, power, types, hArgs, hLength, hPower, hTypes, hMade⟩ :=
    lower_interpolate_ok h
  refine ⟨kind, input, stops, power, types, _, hArgs, hLength, hPower, hTypes, hMade, ?_⟩
  intro ι meaning pow value x exponent place hExact hValued hZero hOne hIncreasing
  have hStops : stops ≠ [] := List.ne_nil_of_length_pos (by omega)
  rw [evaluate_blendTree hExact _ hValued hStops]
  exact isPiecewise_along hZero hOne hIncreasing

end Registry

namespace Interpolation

/-- A meaning that calculates exactly, with a given power. -/
def exactMeaning {ι : Type} (pow : ℚ → ℚ → ℚ) : Interpretation (ι → ℚ) where
  minus x := -x
  not x := x
  binary
    | .subtract => fun x y => x - y
    | .divide => fun x y => x / y
    | _ => fun x _ => x
  holds _ := true
  call
    | "clamp", [x, low, high] => (x ⊔ low) ⊓ high
    | "pow", [x, y] => fun i => pow (x i) (y i)
    | "mix", [x, y, t] => mix x y t
    | _, _ => 0

/-- Three stops with their outputs, all of them variables of the style. -/
def sampleStops : List (Expression × Expression) :=
  [("a", "p"), ("b", "q"), ("c", "r")].map fun names =>
    (.call "var" [.string names.1], .call "var" [.string names.2])

/-- A quadratic interpolation. -/
def sample : Expression :=
  .call "interpolate"
    (.call "exponential" [.number 2] :: .call "zoom" [] :: Operator.row sampleStops)

/-- Values of the stops and outputs of the sample. -/
def sampleNumber : String → ℚ
  | "a" => 0
  | "b" => 1
  | "c" => 3
  | "p" => 10
  | "q" => 20
  | _ => 60

def samplePlace : Expression → ℚ
  | .call "var" [.string name] => sampleNumber name
  | .call "zoom" [] => 2
  | _ => 0

def sampleValue : Part → Unit → ℚ
  | .piece e _ => fun _ => samplePlace e
  | .own (.numeral "1.0") => 1
  | .own (.number _) => 2
  | .own _ => 0

theorem isExact_exactMeaning {ι : Type} (pow : ℚ → ℚ → ℚ) :
    IsExact (exactMeaning pow : Interpretation (ι → ℚ)) pow :=
  ⟨fun _ _ => rfl, fun _ _ => rfl, fun _ _ _ => rfl, fun _ _ => rfl, fun _ _ _ => rfl⟩

/-- Halfway between the second stop and the third, the value is a quarter of the way between their
outputs. -/
theorem interpolate_hits_stops_sample :
    ∃ text final tree spell,
      Registry.builtin.lower sample (some .number) (State.fresh .vertex) = .ok text final ∧
      IsMadeOf sample (some .number) text final tree spell ∧
      tree.evaluate (exactMeaning fun t _ => t * t) sampleValue = fun _ => 30 := by
  have hLower : ∃ text final,
      Registry.builtin.lower sample (some .number) (State.fresh .vertex) = .ok text final :=
    ⟨_, _, rfl⟩
  obtain ⟨text, final, hLower⟩ := hLower
  obtain ⟨kind, input, stops, power, types, spell, hArgs, _, _, _, hMade, hValue⟩ :=
    Registry.interpolate_hits_stops hLower
  obtain ⟨-, hTail⟩ := List.cons.inj hArgs
  obtain ⟨rfl, hRow⟩ := List.cons.inj hTail
  have hStops := congrArg Operator.pairs hRow
  rw [Operator.pairs_row, Operator.pairs_row] at hStops
  subst hStops
  refine ⟨text, final, _, spell, hLower, hMade, ?_⟩
  have hValued : IsValued sampleValue (.call "zoom" []) power sampleStops 2 2 samplePlace :=
    ⟨rfl, rfl, rfl, rfl, fun _ _ => rfl⟩
  have hKnots : ∀ output, knotsOf samplePlace sampleValue output sampleStops =
      [(0, fun _ => 10), (1, fun _ => 20), (3, fun _ => 60)] := fun _ => rfl
  have hPiecewise := hValue Unit _ (fun t _ => t * t) sampleValue 2 2 samplePlace
    (isExact_exactMeaning _) hValued (by norm_num) (by norm_num) (by simp [hKnots, IsIncreasing])
  rw [hKnots] at hPiecewise
  rw [hPiecewise.between 1 (by decide) (by simp) (by norm_num)]
  funext _
  norm_num [mix]

end Interpolation

end PointStyle
