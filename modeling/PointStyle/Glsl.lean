import PointStyle.Expression.Error

/-!
GLSL source text: literals, names and the few expression forms that lowering writes.
-/
namespace PointStyle

/-- The two programs of a symbol. -/
inductive Stage where
  | vertex
  | fragment
deriving DecidableEq, Repr

namespace Glsl

/-- A float literal, which always shows a point. -/
def number (x : Float) : String :=
  let plain := Decimal.plainDouble x
  if '.' ∈ plain.toList then plain else plain ++ ".0"

def bool (b : Bool) : String :=
  if b then "true" else "false"

def call (function : String) (args : List String) : String :=
  function ++ "(" ++ ", ".intercalate args ++ ")"

/-- Operands joined by one operator, in parentheses. -/
def chain (operator : String) (operands : List String) : String :=
  "(" ++ (" " ++ operator ++ " ").intercalate operands ++ ")"

def conditional (test yes no : String) : String :=
  "(" ++ test ++ " ? " ++ yes ++ " : " ++ no ++ ")"

def vector (components : List String) : String :=
  call ("vec" ++ toString components.length) components

/-- A literal vector. Only two to four numbers make one. -/
def array (xs : List Float) : Except ExpressionError String :=
  if 2 ≤ xs.length ∧ xs.length ≤ 4 then .ok (vector (xs.map number))
  else .error (.arrayLength xs.length)

/-- A literal colour, given by channels from 0 to 255 and an alpha from 0 to 1. -/
def colour (red green blue alpha : Float) : String :=
  let channel := fun x : Float => number ((Datum.ofDouble x).overNat 255)
  vector [channel red, channel green, channel blue, number alpha]

/-- The name of a feature attribute: the vertex program reads the attribute itself, the fragment
program what the vertex program passes on. -/
def attributeName (stage : Stage) (name : String) : String :=
  match stage with
  | .vertex => "a_" ++ name
  | .fragment => "v_" ++ name

/-- The uniform that a style variable is bound to. -/
def uniformName (name : String) : String :=
  "u_var_" ++ name

end Glsl

end PointStyle
