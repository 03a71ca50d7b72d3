import PointStyle.Style.Compile

/-!
Values at draw time. Programs only know numbers, so the properties of features and the values of
variables are turned into numbers; a string gets its code from the literal table of the style, and a
new code if it has none.
-/
namespace PointStyle

namespace Style

/-- What drawing changes: the codes given out, and the records made. -/
structure Drawing where
  literals : LiteralTable
  log : Log

namespace Drawing

/-- The number that stands for a missing value. No code of a string is negative. -/
def missingValue : Float := -9999999

/-- The number of a value, which belongs to the named thing. -/
def number (drawing : Drawing) (owner : String) : Json → Float × Drawing
  | .number n => (n.toDouble, drawing)
  | .string s =>
    let (code, literals) := drawing.literals.codeFor s
    (LiteralTable.codeNumber code, { drawing with literals })
  | .bool b => (if b then 1 else 0, drawing)
  | .null => (missingValue, drawing)
  | .array _ | .object _ =>
    let text := owner ++ " holds a non-scalar value, using the missing-value sentinel"
    (missingValue, { drawing with log := drawing.log ++ [⟨.warn, text⟩] })

def attributeValue (drawing : Drawing) (properties : Table Json) (name : String) :
    Float × Drawing :=
  match properties.get? name with
  | some value => drawing.number ("Property '" ++ name ++ "'") value
  | none => (missingValue, drawing)

/-- The value of the uniform that holds a variable. -/
def variableValue (drawing : Drawing) (values : Variables) (name : String) :
    Except StyleError Float × Drawing :=
  match Table.get? values name with
  | some value =>
    let (x, drawing) := drawing.number ("Variable '" ++ name ++ "'") value
    (.ok x, drawing)
  | none => (.error (.missingVariable name), drawing)

/-- The values of attributes for a feature, one after the other. -/
def attributeValues (drawing : Drawing) (properties : Table Json) :
    List String → List (String × Float) × Drawing
  | [] => ([], drawing)
  | name :: rest =>
    let (x, drawing) := drawing.attributeValue properties name
    let (values, drawing) := drawing.attributeValues properties rest
    ((name, x) :: values, drawing)

end Drawing

end Style

end PointStyle
