import PointStyle.Json.Value

/-!
Drafts: a JSON text as far as it can be read. A reader of documents reports the first problem in
reading order, be it a broken text or a value of the wrong shape; so a text is first turned into a
tree that keeps everything before the break and, at its place, the fault. A reader that wants a
value and one that passes over it may see different faults: an escape that denotes no character, or
a number beyond the range of doubles, only disturbs the first.
-/
namespace PointStyle

namespace Json

/-- How a text fails to be JSON. -/
inductive Fault where
  /-- It breaks the grammar or a limit. -/
  | malformed
  /-- It ends too early. -/
  | truncated
deriving DecidableEq, Repr

/-- The end of the readable part: the fault for a reader of the value at that place, and for one
that passes over it. -/
structure Break where
  read : Fault
  skip : Fault
deriving DecidableEq, Repr

/-- A break that is the same for every reader. -/
def Break.both (fault : Fault) : Break := ⟨fault, fault⟩

/-- A JSON text as far as it can be read. A container holds what was read of it, and the break, if
any, that came instead of a separator or its end. -/
inductive Draft where
  | null
  | bool (value : Bool)
  | number (value : Except Fault Number)
  | string (value : Except Fault String)
  | array (items : List Draft) (stop : Option Break)
  | object (members : List (Except Fault String × Draft)) (stop : Option Break)
  | broken (stop : Break)

namespace Draft

instance : Inhabited Draft := ⟨.null⟩

mutual

def ofJson : Json → Draft
  | .null => .null
  | .bool b => .bool b
  | .number n => .number (.ok n)
  | .string s => .string (.ok s)
  | .array items => .array (ofItems items) none
  | .object members => .object (ofMembers members) none

def ofItems : List Json → List Draft
  | [] => []
  | item :: rest => ofJson item :: ofItems rest

def ofMembers : List (String × Json) → List (Except Fault String × Draft)
  | [] => []
  | (name, value) :: rest => (.ok name, ofJson value) :: ofMembers rest

end

def passBreak (fault : Break → Fault) : Option Break → Except Fault Unit
  | none => .ok ()
  | some stop => .error (fault stop)

mutual

/-- Passes over a draft; fails where the text breaks. -/
def skip : Draft → Except Fault Unit
  | .null | .bool _ | .number _ | .string _ => .ok ()
  | .array items stop => do skipItems items; passBreak Break.skip stop
  | .object members stop => do skipMembers members; passBreak Break.skip stop
  | .broken stop => .error stop.skip

def skipItems : List Draft → Except Fault Unit
  | [] => .ok ()
  | item :: rest => do item.skip; skipItems rest

def skipMembers : List (Except Fault String × Draft) → Except Fault Unit
  | [] => .ok ()
  | (_, value) :: rest => do value.skip; skipMembers rest

end

end Draft

/-- Where a draft comes from. Only in a text is nesting limited. -/
inductive Source where
  /-- A value held in memory. -/
  | value
  /-- A text, in which this many levels of containers are left. -/
  | text (levels : Nat)
deriving DecidableEq, Repr

namespace Source

/-- A text that is read from its start. -/
def fresh : Source := .text 128

/-- Enters a container. The last level of a text is already too deep. -/
def enter : Source → Except Fault Source
  | .value => .ok .value
  | .text levels => if levels ≤ 1 then .error .malformed else .ok (.text (levels - 1))

end Source

namespace Draft

mutual

/-- Reads a whole value. Of members with one name the last counts. -/
def toJson (source : Source) : Draft → Except Fault Json
  | .null => .ok .null
  | .bool b => .ok (.bool b)
  | .number n => n.map .number
  | .string s => s.map .string
  | .array items stop => do
    let inner ← source.enter
    let values ← toItems inner items
    passBreak Break.read stop
    return .array values
  | .object members stop => do
    let inner ← source.enter
    let values ← toMembers inner [] members
    passBreak Break.read stop
    return .object values
  | .broken stop => .error stop.read

def toItems (source : Source) : List Draft → Except Fault (List Json)
  | [] => .ok []
  | item :: rest => do
    let value ← item.toJson source
    let values ← toItems source rest
    return value :: values

def toMembers (source : Source) (table : Table Json) :
    List (Except Fault String × Draft) → Except Fault (Table Json)
  | [] => .ok table
  | (name, value) :: rest => do
    let name ← name
    let value ← value.toJson source
    toMembers source (table.insert name value) rest

end

end Draft

end Json

end PointStyle
