import PointStyle.Json.Writer

/-!
Style expressions, and their JSON form. A literal stays a literal; a call is an array of the name
of its operator and its arguments.
-/
namespace PointStyle

inductive Expression where
  | number (value : Float)
  | bool (value : Bool)
  | string (value : String)
  | numberArray (values : List Float)
  | call (operator : String) (args : List Expression)

namespace Expression

instance : Inhabited Expression := ⟨.numberArray []⟩

mutual

def toJson : Expression → Json
  | .number x => .ofDouble x
  | .bool b => .bool b
  | .string s => .string s
  | .numberArray xs => .array (xs.map .ofDouble)
  | .call operator args => .array (.string operator :: toItems args)

def toItems : List Expression → List Json
  | [] => []
  | e :: rest => e.toJson :: toItems rest

end

/-- An expression as messages quote it. -/
def text (e : Expression) : String :=
  e.toJson.text

def argsText (args : List Expression) : String :=
  (Json.array (toItems args)).text

end Expression

end PointStyle
