import PointStyle.Operator.Arithmetic

/-!
Operators that build arrays and colours from numbers.
-/
namespace PointStyle

namespace Operator

def numberArray : Operator :=
  returning .numberArray fun args => do
    Lowering.check (Term.requireAtLeast args 2)
    Lowering.check (Term.requireAtMost args 4)
    return Glsl.vector (← lowerNumbers args)

/-- The components of a colour vector: channels are divided by 255, an alpha is taken as it is, and
a missing one is one. -/
def colourComponents : List String → List String
  | [red, green, blue] => [red ++ " / 255.0", green ++ " / 255.0", blue ++ " / 255.0", "1.0"]
  | [red, green, blue, alpha] =>
    [red ++ " / 255.0", green ++ " / 255.0", blue ++ " / 255.0", alpha]
  | others => others

/-- A colour of three channels from 0 to 255 and perhaps an alpha. -/
def colour : Operator :=
  returning .colour fun args => do
    Lowering.check (Term.requireAtLeast args 3)
    Lowering.check (Term.requireAtMost args 4)
    return Glsl.vector (colourComponents (← lowerNumbers args))

end Operator

end PointStyle
