import PointStyle.Binary
import PointStyle.Table

/-!
JSON values. Whole numbers are kept apart from doubles, because messages that quote a value show
the difference. The members of an object are listed in the order in which they are written.
-/
namespace PointStyle

/-- A JSON number: whole when it was written without point and exponent and fits 64 bits. -/
inductive Json.Number where
  | whole (value : Int)
  | double (value : Float)
deriving DecidableEq

inductive Json where
  | null
  | bool (value : Bool)
  | number (value : Json.Number)
  | string (value : String)
  | array (items : List Json)
  | object (members : List (String × Json))

namespace Json

instance : Inhabited Json := ⟨.null⟩

def Number.toDouble : Number → Float
  | .whole n => (Datum.ofInt n).toDouble
  | .double x => x

/-- The double nearest to a value, if it is a number. -/
def double? : Json → Option Float
  | .number n => some n.toDouble
  | _ => none

/-- A double as a value. JSON has no numbers that are not finite, so those become null. -/
def ofDouble (x : Float) : Json :=
  if (Datum.ofDouble x).isFinite then .number (.double x) else .null

end Json

end PointStyle
