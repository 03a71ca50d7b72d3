import PointStyle.Colour.Parser
import PointStyle.Expression.Basic
import PointStyle.TypeSet

/-!
What can be wrong with an expression, and how it is said.
-/
namespace PointStyle

/-- Why an expression could not be read, typed or lowered. -/
inductive ExpressionError where
  /-- A null or an object stands where an expression should. -/
  | unhandledValue (value : Json)
  /-- An array neither holds numbers only nor starts with the name of an operator. -/
  | expectedOperator (value : Json)
  /-- The operator of a call is not registered. -/
  | unknownOperator (call : Expression)
  /-- The number of arguments is not the one expected. -/
  | argsCount (expected found : Nat)
  /-- There are too few arguments. -/
  | argsMinCount (expected found : Nat)
  /-- There are too many arguments. -/
  | argsMaxCount (expected found : Nat)
  /-- The number of arguments should be even. -/
  | argsEven (found : Nat)
  /-- The number of arguments should be odd. -/
  | argsOdd (found : Nat)
  /-- An argument cannot be a number. -/
  | expectedNumber (arg : Expression)
  /-- An argument cannot be a truth value. -/
  | expectedBoolean (arg : Expression)
  /-- An argument is not a name written as a plain string. -/
  | expectedIdentifier (arg : Expression)
  /-- The arguments do not agree on exactly one type. -/
  | ambiguousType (args : List Expression)
  /-- The arguments have no type in common. -/
  | incompatibleTypes (args : List Expression)
  /-- The kind of an interpolation is not known. -/
  | invalidInterpolation (kind : Expression)
  /-- A literal array has no vector type. -/
  | arrayLength (found : Nat)
  /-- A literal does not have the type expected. -/
  | unexpectedType (literal : Expression) (expected : TypeSet)
  /-- A string was taken for a colour and is none. -/
  | color (error : Colour.ParseError)

namespace ExpressionError

def message : ExpressionError → String
  | .unhandledValue value => "Unhandled value type: " ++ value.text
  | .expectedOperator value => "Expected an expression operator but received: " ++ value.text
  | .unknownOperator call => "Unrecognized expression operator: " ++ call.text
  | .argsCount expected found =>
    s!"Exactly {expected} arguments were expected, got {found} instead"
  | .argsMinCount expected found =>
    s!"At least {expected} arguments were expected, got {found} instead"
  | .argsMaxCount expected found =>
    s!"At most {expected} arguments were expected, got {found} instead"
  | .argsEven found => s!"An even amount of arguments was expected, got {found} instead"
  | .argsOdd found => s!"An odd amount of arguments was expected, got {found} instead"
  | .expectedNumber arg => "A numeric value was expected, got " ++ arg.text ++ " instead"
  | .expectedBoolean arg => "A boolean value was expected, got " ++ arg.text ++ " instead"
  | .expectedIdentifier arg => "A string identifier was expected, got " ++ arg.text ++ " instead"
  | .ambiguousType args =>
    "Could not infer only one type from the following expression: " ++ Expression.argsText args
  | .incompatibleTypes args =>
    "All arguments should be of compatible type, got " ++ Expression.argsText args ++ " instead"
  | .invalidInterpolation kind => "Invalid interpolation type: " ++ kind.text
  | .arrayLength found => s!"Array must have between 2 and 4 elements, got {found}"
  | .unexpectedType literal expected =>
    "Unexpected expression " ++ literal.text ++ " (expected type " ++ expected.text ++ ")"
  | .color error => error.message

end ExpressionError

end PointStyle
