import PointStyle.Binary

/-!
Numbers for strings. GLSL has no strings, so each string literal is replaced by a number, and at
draw time each string value by the number of the same table.
-/
namespace PointStyle

/-- The strings seen so far, in the order of their first appearance. -/
structure LiteralTable where
  strings : List String
deriving DecidableEq, Repr

namespace LiteralTable

def empty : LiteralTable := ⟨[]⟩

instance : Inhabited LiteralTable := ⟨empty⟩

def size (table : LiteralTable) : Nat := table.strings.length

/-- The code of a string: its place, in 32 bits. -/
def code? (table : LiteralTable) (s : String) : Option UInt32 :=
  (table.strings.idxOf? s).map UInt32.ofNat

/-- The code of a string, and the table that has seen it. -/
def codeFor (table : LiteralTable) (s : String) : UInt32 × LiteralTable :=
  match table.code? s with
  | some code => (code, table)
  | none => (UInt32.ofNat table.size, ⟨table.strings ++ [s]⟩)

/-- Codes are given out in order: what was seen before keeps its place. -/
theorem strings_isPrefix_codeFor (table : LiteralTable) (s : String) :
    table.strings <+: (table.codeFor s).2.strings := by
  unfold codeFor
  split
  · exact List.prefix_refl _
  · exact List.prefix_append _ _

/-- A string that has a code gets no other. -/
theorem codeFor_of_code? {table : LiteralTable} {s : String} {code : UInt32}
    (h : table.code? s = some code) : table.codeFor s = (code, table) := by
  rw [codeFor, h]

/-- A code as the number a program sees. -/
def codeNumber (code : UInt32) : Float :=
  (Datum.ofInt code.toNat).toDouble

end LiteralTable

end PointStyle
