import PointStyle.Decimal.Format
import PointStyle.Json.Value

/-!
Compact JSON text: no blanks, members in the order in which the object lists them.
-/
namespace PointStyle

namespace Json

/-- Numbers are positional while the power of ten of their first digit lies between two bounds, and
always show a point or an exponent. Those that are not finite are missing. -/
def numberFormat (least most : Int) : Decimal.Format where
  isPositional := fun power => decide (least ≤ power) && decide (power ≤ most)
  whole := ".0"
  tie := .even
  nan := "null"
  infinity := "null"

def doubleText (x : Float) : String :=
  let d := Datum.ofDouble x
  if d.isFinite then (numberFormat (-5) 15).text .double d else "null"

/-- The text of a single, which has its own digits and bounds. -/
def singleText (x : Float32) : String :=
  let d := Datum.ofSingle x
  if d.isFinite then (numberFormat (-6) 12).text .single d else "null"

def Number.text : Number → String
  | .whole n => toString n
  | .double x => doubleText x

/-- A control character as a four-digit escape. -/
def controlEscape (code : Nat) : String :=
  let digits := Nat.toDigits 16 code
  "\\u" ++ String.ofList (List.replicate (4 - digits.length) '0' ++ digits)

/-- One character of a string. Only quotes, backslashes and controls are escaped. -/
def charText (c : Char) : String :=
  if c = '"' then "\\\""
  else if c = '\\' then "\\\\"
  else if c = '\x08' then "\\b"
  else if c = '\t' then "\\t"
  else if c = '\n' then "\\n"
  else if c = '\x0c' then "\\f"
  else if c = '\r' then "\\r"
  else if c.toNat < 0x20 then controlEscape c.toNat
  else String.singleton c

def stringText (s : String) : String :=
  "\"" ++ String.join (s.toList.map charText) ++ "\""

mutual

/-- The compact text of a value. -/
def text : Json → String
  | .null => "null"
  | .bool true => "true"
  | .bool false => "false"
  | .number n => n.text
  | .string s => stringText s
  | .array items => "[" ++ ",".intercalate (itemTexts items) ++ "]"
  | .object members => "\x7b" ++ ",".intercalate (memberTexts members) ++ "\x7d"

def itemTexts : List Json → List String
  | [] => []
  | item :: rest => item.text :: itemTexts rest

def memberTexts : List (String × Json) → List String
  | [] => []
  | (name, value) :: rest => (stringText name ++ ":" ++ value.text) :: memberTexts rest

end

end Json

end PointStyle
