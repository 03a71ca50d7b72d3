import PointStyle.Json.Record

/-!
Values that the vertex program computes and the fragment program reads interpolated.
-/
namespace PointStyle

namespace Shader

/-- The types a varying may have. -/
inductive VaryingType where
  | float
  | vec2
  | vec3
  | vec4
deriving DecidableEq, Repr

namespace VaryingType

def all : List VaryingType := [.float, .vec2, .vec3, .vec4]

def name : VaryingType → String
  | .float => "float"
  | .vec2 => "vec2"
  | .vec3 => "vec3"
  | .vec4 => "vec4"

def ofName (name : String) : Except (Json.DocumentError Empty) VaryingType :=
  match all.find? (·.name = name) with
  | some type => .ok type
  | none => .error (.unknownVariant name (all.map VaryingType.name))

/-- Reads a type from a JSON value: its name, or an object whose only member has that name and is
null. -/
def ofJson : Json → Except (Json.DocumentError Empty) VaryingType
  | .string name => ofName name
  | .object [(name, value)] => do
    let type ← ofName name
    match value with
    | .null => return type
    | other => throw (.wrongKind other.kind "unit")
  | .object _ => .error .notSingleMember
  | other => .error (.wrongKind other.kind "string or map")

def reader : Json.Reader Empty VaryingType := fun source draft => do
  let value ← Json.Reader.json source draft
  ofJson value

end VaryingType

/-- A varying with the expression that the vertex program gives it. -/
structure Varying where
  name : String
  type : VaryingType
  expression : String
deriving DecidableEq, Repr

namespace Varying

def declaration (v : Varying) : String :=
  "varying " ++ v.type.name ++ " " ++ v.name ++ ";"

def assignment (v : Varying) : String :=
  "  " ++ v.name ++ " = " ++ v.expression ++ ";"

def toJson (v : Varying) : Json :=
  .object [("name", .string v.name), ("type", .string v.type.name),
    ("expression", .string v.expression)]

/-- A varying of which some fields are known. -/
structure Partial where
  name : Option String
  type : Option VaryingType
  expression : Option String

def record : Json.Record Empty Partial Varying where
  name := "Varying"
  fields := [
    .storing "name" true Partial.name (fun known x => { known with name := x }) Json.Reader.string,
    .storing "type" true Partial.type (fun known x => { known with type := x }) VaryingType.reader,
    .storing "expression" true Partial.expression (fun known x => { known with expression := x })
      Json.Reader.string]
  blank := ⟨none, none, none⟩
  build := fun known =>
    match known with
    | ⟨none, _, _⟩ => .error "name"
    | ⟨_, none, _⟩ => .error "type"
    | ⟨_, _, none⟩ => .error "expression"
    | ⟨some name, some type, some expression⟩ => .ok ⟨name, type, expression⟩

def ofJson (value : Json) : Except (Json.DocumentError Empty) Varying :=
  record.read.ofJson value

end Varying

end Shader

end PointStyle
