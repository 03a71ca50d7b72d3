import PointStyle.Json.Scanner
import PointStyle.Json.Writer
import PointStyle.Text.Quoted

/-!
Reading records from drafts. A record is written as an object, whose unknown members are passed
over, or as an array of its fields in order. Whatever is wrong first in reading order is reported.
-/
namespace PointStyle

namespace Json

/-- What a draft turned out to be, for the message that it should have been something else. -/
inductive Kind where
  | null
  | bool (value : Bool)
  | number (value : Number)
  | string (value : String)
  | array
  | object

def Kind.text : Kind → String
  | .null => "null"
  | .bool b => "boolean `" ++ (if b then "true" else "false") ++ "`"
  | .number (.whole n) => "integer `" ++ toString n ++ "`"
  | .number (.double x) => "floating point `" ++ (Number.double x).text ++ "`"
  | .string s => "string " ++ Text.quoted s
  | .array => "sequence"
  | .object => "map"

def kind : Json → Kind
  | .null => .null
  | .bool b => .bool b
  | .number n => .number n
  | .string s => .string s
  | .array _ => .array
  | .object _ => .object

/-- Why a document was refused. The last case holds the errors of what the document contains. -/
inductive DocumentError (ε : Type) where
  /-- The text is not JSON. -/
  | fault (fault : Fault)
  /-- A value of another kind was expected. -/
  | wrongKind (found : Kind) (expected : String)
  /-- A required field is not there. -/
  | missingField (name : String)
  /-- A field is given twice. -/
  | duplicateField (name : String)
  /-- An array does not have as many elements as expected. -/
  | wrongLength (length : Nat) (expected : String)
  /-- A name is none of those expected. -/
  | unknownVariant (name : String) (expected : List String)
  /-- An object does not have exactly one member. -/
  | notSingleMember
  /-- A value has none of the shapes that the named type allows. -/
  | noShape (type : String)
  /-- The document is well shaped but its content is not valid. -/
  | content (error : ε)

/-- The message of a document error. A broken text has none of its own. -/
def DocumentError.message {ε : Type} (content : ε → String) : DocumentError ε → String
  | .fault _ => ""
  | .wrongKind found expected => "invalid type: " ++ found.text ++ ", expected " ++ expected
  | .missingField name => "missing field `" ++ name ++ "`"
  | .duplicateField name => "duplicate field `" ++ name ++ "`"
  | .wrongLength length expected =>
    "invalid length " ++ toString length ++ ", expected " ++ expected
  | .unknownVariant name expected =>
    "unknown variant `" ++ name ++ "`, expected one of " ++
      ", ".intercalate (expected.map fun variant => "`" ++ variant ++ "`")
  | .notSingleMember => "invalid value: map, expected map with a single key"
  | .noShape type => "data did not match any variant of untagged enum " ++ type
  | .content error => content error

abbrev Reader (ε : Type) (α : Type) := Source → Draft → Except (DocumentError ε) α

section

variable {ε : Type} {α : Type} {β : Type}

def ofFault (result : Except Fault α) : Except (DocumentError ε) α :=
  result.mapError .fault

/-- The kind of a draft. The contents of a container are not looked at. -/
def Draft.kind : Draft → Except (DocumentError ε) Kind
  | .null => .ok .null
  | .bool b => .ok (.bool b)
  | .number n => ofFault (n.map .number)
  | .string s => ofFault (s.map .string)
  | .array _ _ => .ok .array
  | .object _ _ => .ok .object
  | .broken stop => .error (.fault stop.read)

/-- Refuses a draft of another kind. -/
def unexpected (expected : String) (draft : Draft) : Except (DocumentError ε) α := do
  let found ← draft.kind
  throw (.wrongKind found expected)

namespace Reader

def string : Reader ε String := fun _ draft =>
  match draft with
  | .string s => ofFault s
  | draft => unexpected "a string" draft

def bool : Reader ε Bool := fun _ draft =>
  match draft with
  | .bool b => .ok b
  | draft => unexpected "a boolean" draft

def json : Reader ε Json := fun source draft =>
  ofFault (draft.toJson source)

def table : Reader ε (Table Json) := fun source draft =>
  match draft with
  | .object members stop => ofFault do
    let inner ← source.enter
    let table ← Draft.toMembers inner [] members
    Draft.passBreak Break.read stop
    return table
  | draft => unexpected "a map" draft

/-- A value that may be null. -/
def optional (reader : Reader ε α) : Reader ε (Option α) := fun source draft =>
  match draft with
  | .null => .ok none
  | draft => some <$> reader source draft

/-- A value whose content is read further. -/
def andThen (reader : Reader ε α) (next : α → Except ε β) : Reader ε β := fun source draft => do
  let value ← reader source draft
  (next value).mapError .content

end Reader

/-- One field of a record that is read into drafts of type `β`. -/
structure Field (ε : Type) (β : Type) where
  name : String
  isRequired : Bool
  isSet : β → Bool
  read : Source → Draft → β → Except (DocumentError ε) β

/-- A field that is stored once it is read. -/
def Field.storing (name : String) (isRequired : Bool) (get : β → Option α)
    (set : β → Option α → β) (reader : Reader ε α) : Field ε β where
  name := name
  isRequired := isRequired
  isSet := fun known => (get known).isSome
  read := fun source draft known => do
    let value ← reader source draft
    return set known (some value)

/-- How a record is read: its fields in order, what is known before any of them, and the record
once all of them are known, or else the name of the first field that is missing. -/
structure Record (ε : Type) (β : Type) (α : Type) where
  name : String
  fields : List (Field ε β)
  blank : β
  build : β → Except String α

namespace Record

/-- How the record is named in messages. -/
def expected (record : Record ε β α) : String :=
  "struct " ++ record.name

/-- Reads the members of an object in their order. -/
def readMembers (record : Record ε β α) (source : Source) (known : β) :
    List (Except Fault String × Draft) → Except (DocumentError ε) β
  | [] => .ok known
  | (name, draft) :: rest => do
    let name ← ofFault name
    match record.fields.find? (·.name = name) with
    | none =>
      ofFault draft.skip
      record.readMembers source known rest
    | some field =>
      if field.isSet known then throw (.duplicateField name)
      let known ← field.read source draft known
      record.readMembers source known rest

/-- What to say about elements that no field is left for. -/
def leftover (source : Source) (length : Nat) (stop : Option Break) :
    List Draft → Except (DocumentError ε) Unit
  | [] => ofFault (Draft.passBreak Break.read stop)
  | _ :: _ =>
    match source with
    | .text _ => .error (.fault .malformed)
    | .value => .error (.wrongLength length "fewer elements in array")

/-- Reads the elements of an array into the fields from number `index` on. -/
def readItems (record : Record ε β α) (source : Source) (length : Nat) (stop : Option Break)
    (index : Nat) (known : β) : List (Field ε β) → List Draft → Except (DocumentError ε) β
  | [], items => do
    leftover source length stop items
    return known
  | field :: fields, [] => do
    ofFault (Draft.passBreak Break.read stop)
    if field.isRequired then
      let count := toString record.fields.length
      throw (.wrongLength index (record.expected ++ " with " ++ count ++ " elements"))
    record.readItems source length stop (index + 1) known fields []
  | field :: fields, item :: items => do
    let known ← field.read source item known
    record.readItems source length stop (index + 1) known fields items

/-- Reads a record from an object or an array. -/
def read (record : Record ε β α) : Reader ε α := fun source draft =>
  match draft with
  | .object members stop => do
    let inner ← ofFault source.enter
    let known ← record.readMembers inner record.blank members
    ofFault (Draft.passBreak Break.read stop)
    (record.build known).mapError .missingField
  | .array items stop => do
    let inner ← ofFault source.enter
    let known ← record.readItems inner items.length stop 0 record.blank record.fields items
    (record.build known).mapError .missingField
  | draft => unexpected record.expected draft

end Record

/-- Reads a value held in memory. -/
def Reader.ofJson (reader : Reader ε α) (value : Json) : Except (DocumentError ε) α :=
  reader .value (Draft.ofJson value)

/-- Reads a text, which must hold nothing else. -/
def Reader.ofText (reader : Reader ε α) (text : String) : Except (DocumentError ε) α := do
  let (draft, rest) := scan text
  let value ← reader .fresh draft
  ofFault rest
  return value

end

end Json

end PointStyle
