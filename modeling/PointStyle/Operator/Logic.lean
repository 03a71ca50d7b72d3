import PointStyle.Operator.Arithmetic

/-!
Operators that give a truth value.
-/
namespace PointStyle

namespace Operator

/-- Two values of a common type compared for equality. Colours are compared by the codes of their
texts, never as vectors. -/
def equality (operator : String) : Operator :=
  returning .boolean fun args => do
    match args with
    | [left, right] =>
      let shared ← Lowering.check (Term.commonTypes .any [left, right])
      if shared.isEmpty then throw (.incompatibleTypes (Term.sources args))
      let hint := shared &&& ~~~TypeSet.colour
      let leftText ← left.lower (some hint)
      let rightText ← right.lower (some hint)
      return Glsl.chain operator [leftText, rightText]
    | _ => throw (.argsCount 2 args.length)

def negation : Operator :=
  returning .boolean fun args => do
    match args with
    | [arg] =>
      Lowering.check arg.requireBoolean
      let operand ← arg.lower none
      return "(!" ++ operand ++ ")"
    | _ => throw (.argsCount 1 args.length)

/-- A chain of two or more truth values. -/
def booleanChain (operator : String) : Operator :=
  returning .boolean fun args => do
    Lowering.check (Term.requireAtLeast args 2)
    Lowering.check (Term.requireBooleans args)
    return Glsl.chain operator (← Term.lowerAll args (some .boolean))

/-- Whether a number lies between two others, ends included. -/
def between : Operator :=
  returning .boolean fun args => do
    match ← lowerCount 3 args with
    | [value, low, high] =>
      return Glsl.chain "&&" [value ++ " >= " ++ low, value ++ " <= " ++ high]
    | _ => throw (.argsCount 3 args.length)

end Operator

end PointStyle
