import PointStyle.Operator.Input

/-!
Operators on numbers. Every argument is checked before any is lowered.
-/
namespace PointStyle

namespace Operator

def lowerNumbers (args : List Term) : Lowering (List String) := do
  Lowering.check (Term.requireNumbers args)
  Term.lowerAll args (some .number)

def lowerCount (count : Nat) (args : List Term) : Lowering (List String) := do
  Lowering.check (Term.requireCount args count)
  lowerNumbers args

def numericChain (operator : String) : Operator :=
  returning .number fun args => do
    Lowering.check (Term.requireAtLeast args 2)
    return Glsl.chain operator (← lowerNumbers args)

def numericPair (types : TypeSet) (operator : String) : Operator :=
  returning types fun args => do
    return Glsl.chain operator (← lowerCount 2 args)

def numericFunction (function : String) (count : Nat) : Operator :=
  returning .number fun args => do
    return Glsl.call function (← lowerCount count args)

/-- Rounding, a half going up. -/
def round : Operator :=
  returning .number fun args => do
    let operands ← lowerCount 1 args
    return Glsl.call "floor" (operands.map (· ++ " + 0.5"))

/-- The arc tangent of a number, or of a quotient given by its parts. -/
def arcTangent : Operator :=
  returning .number fun args => do
    Lowering.check (Term.requireAtLeast args 1)
    Lowering.check (Term.requireAtMost args 2)
    return Glsl.call "atan" (← lowerNumbers args)

end Operator

end PointStyle
