import PointStyle.Lowering.Check

/-!
Operators that choose or blend between outputs. All outputs have to agree, with the hint, on
exactly one type, and each is lowered with that type as its hint.
-/
namespace PointStyle

namespace Operator

/-- The elements at the even places of a list. -/
def everyOther {α : Type} : List α → List α
  | [] => []
  | [a] => [a]
  | a :: _ :: rest => a :: everyOther rest

/-- The elements of a list two by two; one that is left over at the end is dropped. -/
def pairs {α : Type} : List α → List (α × α)
  | a :: b :: rest => (a, b) :: pairs rest
  | _ => []

def narrow (types : TypeSet) (hint : Option TypeSet) : TypeSet :=
  types &&& hint.getD .any

/-- The one type of the outputs of a call. -/
def outputType (args : List Term) (types : Except ExpressionError TypeSet) (hint : Option TypeSet) :
    Lowering TypeSet := do
  let output := narrow (← Lowering.check types) hint
  Lowering.check (Term.requireUnique args output)
  return output

namespace Interpolate

/-- The exponent that a kind of interpolation names; an exponent of zero names none. -/
def exponent (kind : Term) : Except ExpressionError Float :=
  match kind.source with
  | .call "linear" [] => .ok 1
  | .call "exponential" [.number x] =>
    if (Datum.ofDouble x).isZero then .error (.invalidInterpolation kind.source) else .ok x
  | other => .error (.invalidInterpolation other)

/-- The types of an interpolation: colours or numbers, as all outputs allow. -/
def returns (args : List Term) : Except ExpressionError TypeSet :=
  Term.commonTypes (.colour ||| .number) (everyOther (args.drop 3))

/-- The blend of two outputs over the segment between two stops. -/
def segment (input exponent below above low high : String) : String :=
  Glsl.call "mix" [below, above,
    Glsl.call "pow" [
      Glsl.call "clamp" ["(" ++ input ++ " - " ++ low ++ ") / (" ++ high ++ " - " ++ low ++ ")",
        "0.0", "1.0"],
      exponent]]

/-- Goes on blending from a stop through the stops after it. The stop a segment starts at is
lowered again for it. -/
def ramp (input exponent : String) (output : TypeSet) :
    String → Term → List (Term × Term) → Lowering String
  | below, _, [] => pure below
  | below, start, (stop, value) :: rest => do
    let low ← start.lower none
    let high ← stop.lower none
    let above ← value.lower (some output)
    ramp input exponent output (segment input exponent below above low high) stop rest

/-- Lowers the stops and outputs of an interpolation, of which there are at least two pairs. -/
def lowerStops (input exponent : String) (output : TypeSet) (args : List Term) :
    List (Term × Term) → Lowering String
  | (start, first) :: (stop, value) :: rest => do
    let low ← start.lower none
    let below ← first.lower (some output)
    let high ← stop.lower none
    let above ← value.lower (some output)
    ramp input exponent output (segment input exponent below above low high) stop rest
  | _ => throw (.argsMinCount 6 args.length)

/-- Lowers an interpolation: its kind, its input, and two or more pairs of a stop and an output. -/
def lower (args : List Term) (hint : Option TypeSet) : Lowering String := do
  Lowering.check (Term.requireEven args)
  Lowering.check (Term.requireAtLeast args 6)
  match args with
  | kind :: input :: stops =>
    let power := Glsl.number (← Lowering.check (exponent kind))
    let output ← outputType args (returns args) hint
    let inputText ← input.lower none
    lowerStops inputText power output args (pairs stops)
  | _ => throw (.argsMinCount 6 args.length)

end Interpolate

/-- Blends between the outputs of stops. -/
def interpolate : Operator := ⟨Interpolate.returns, Interpolate.lower⟩

/-- The choice of the first output whose test holds, and of the fallback when none does. The
fallback is lowered first, then the pairs from the last to the first, each test before its
output. -/
def choices (test : String → String) (output : TypeSet) (fallback : Term) :
    List (Term × Term) → Lowering String
  | [] => fallback.lower (some output)
  | (candidate, value) :: rest => do
    let otherwise ← choices test output fallback rest
    let candidateText ← candidate.lower none
    let valueText ← value.lower (some output)
    return Glsl.conditional (test candidateText) valueText otherwise

namespace Match

/-- The types of a match: those of all its outputs and its fallback. -/
def returns (args : List Term) : Except ExpressionError TypeSet :=
  Term.commonTypes .any (everyOther (args.drop 2) ++ args.getLast?.toList)

/-- Lowers a match: its input, one or more pairs of a candidate and an output, and a fallback. -/
def lower (args : List Term) (hint : Option TypeSet) : Lowering String := do
  Lowering.check (Term.requireEven args)
  Lowering.check (Term.requireAtLeast args 4)
  let output ← outputType args (returns args) hint
  match args, args.getLast? with
  | input :: rest, some fallback =>
    let inputText ← input.lower none
    choices (fun candidate => inputText ++ " == " ++ candidate) output fallback
      (pairs rest.dropLast)
  | _, _ => throw (.argsMinCount 4 args.length)

end Match

/-- Chooses by equality with the input. -/
def matching : Operator := ⟨Match.returns, Match.lower⟩

namespace Case

/-- The types of a case: those of all its outputs and its fallback. -/
def returns (args : List Term) : Except ExpressionError TypeSet :=
  Term.commonTypes .any (everyOther (args.drop 1) ++ args.getLast?.toList)

/-- Lowers a case: one or more pairs of a condition and an output, and a fallback. -/
def lower (args : List Term) (hint : Option TypeSet) : Lowering String := do
  Lowering.check (Term.requireOdd args)
  Lowering.check (Term.requireAtLeast args 3)
  let output ← outputType args (returns args) hint
  match args.getLast? with
  | some fallback =>
    let branches := pairs args.dropLast
    Lowering.check (Term.requireBooleans (branches.map (·.1)))
    choices id output fallback branches
  | none => throw (.argsMinCount 3 args.length)

end Case

/-- Chooses by conditions. -/
def casewise : Operator := ⟨Case.returns, Case.lower⟩

end Operator

end PointStyle
