import PointStyle.Colour.Parser
import PointStyle.Json.Record

/-!
Colours in JSON: an object of the channels, or any colour text.
-/
namespace PointStyle

namespace Colour

/-- The members of a colour. An alpha of one is left out. -/
def members (c : Colour) : List (String × String) :=
  let channel := fun n : UInt8 => toString n.toNat
  let channels := [("r", channel c.red), ("g", channel c.green), ("b", channel c.blue)]
  if c.alpha = 1 then channels
  else channels ++ [("a", Json.singleText c.alpha)]

/-- The JSON text of a colour. The alpha has its own shortest digits, not those of a double. -/
def jsonText (c : Colour) : String :=
  "\x7b" ++ ",".intercalate
    (c.members.map fun (name, value) => Json.stringText name ++ ":" ++ value) ++
    "\x7d"

/-- The JSON value of a colour. An alpha of one is left out, and any other is widened to a
double. -/
def toJson (c : Colour) : Json :=
  let channel := fun n : UInt8 => Json.number (.whole n.toNat)
  let channels := [("r", channel c.red), ("g", channel c.green), ("b", channel c.blue)]
  let alpha := [("a", Json.ofDouble (Datum.ofSingle c.alpha).toDouble)]
  .object (Table.ofEntries (if c.alpha = 1 then channels else channels ++ alpha))

/-- A channel: a whole number from 0 to 255. -/
def channelOfJson? : Json → Option UInt8
  | .number (.whole n) => if 0 ≤ n ∧ n ≤ 255 then some (UInt8.ofNat n.toNat) else none
  | _ => none

/-- An alpha: any number, in single precision. -/
def alphaOfJson? : Json → Option Float32
  | .number (.whole n) => some (Datum.ofInt n).toSingle
  | .number (.double x) => some (Datum.ofDouble x).toSingle
  | _ => none

/-- A colour given by its members. Other members are ignored, and a missing alpha is one. -/
def ofMembers? (table : Table Json) : Option Colour := do
  let red ← table.get? "r" >>= channelOfJson?
  let green ← table.get? "g" >>= channelOfJson?
  let blue ← table.get? "b" >>= channelOfJson?
  let alpha ← match table.get? "a" with
    | none => some 1
    | some value => alphaOfJson? value
  return ⟨red, green, blue, alpha⟩

def ofJson : Json → Except (Json.DocumentError ParseError) Colour
  | .string s => (parse s).mapError .content
  | .object members =>
    match ofMembers? members with
    | some colour => .ok colour
    | none => .error (.noShape "ColorDef")
  | _ => .error (.noShape "ColorDef")

end Colour

end PointStyle
