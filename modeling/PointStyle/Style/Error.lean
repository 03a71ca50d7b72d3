import PointStyle.Expression.Error
import PointStyle.Json.Record

/-!
What can be wrong with a style, and how it is said.
-/
namespace PointStyle

/-- Why a style could not be compiled or drawn. -/
inductive StyleError where
  /-- The symbol has a shape that does not exist. -/
  | unknownSymbolType (name : String)
  /-- A variable has no value. -/
  | missingVariable (name : String)
  /-- One of the expressions is at fault. -/
  | expression (error : ExpressionError)
  /-- The style could not be read. -/
  | document (error : Json.DocumentError ExpressionError)

namespace StyleError

def message : StyleError → String
  | .unknownSymbolType name => "Unexpected symbol type: " ++ name
  | .missingVariable name => "The following variable is missing from the style: " ++ name
  | .expression error => error.message
  | .document error => "Invalid style JSON: " ++ error.message ExpressionError.message

end StyleError

end PointStyle
