/-!
Sets of value types. A literal may have several types at once: the string `"red"` is a string and
a colour, an array of three numbers is an array and a colour. Operators narrow the set by the
hints they pass down.
-/
namespace PointStyle

/-- The types of values that expressions produce. -/
inductive ValueType where
  | colour
  | number
  | boolean
  | numberArray
  | string
deriving DecidableEq, Repr

namespace ValueType

/-- All types, in the order in which they are shown. -/
def all : List ValueType := [.colour, .number, .boolean, .numberArray, .string]

/-- The place of a type in that order. -/
def index : ValueType → Nat
  | .colour => 0
  | .number => 1
  | .boolean => 2
  | .numberArray => 3
  | .string => 4

def name : ValueType → String
  | .colour => "color"
  | .number => "number"
  | .boolean => "boolean"
  | .numberArray => "number[]"
  | .string => "string"

end ValueType

/-- A set of value types, one bit for each. -/
structure TypeSet where
  bits : BitVec 5
deriving DecidableEq, Repr

namespace TypeSet

def single (t : ValueType) : TypeSet := ⟨1#5 <<< t.index⟩

def none : TypeSet := ⟨0⟩

def any : TypeSet := ⟨31⟩

def colour : TypeSet := single .colour

def number : TypeSet := single .number

def boolean : TypeSet := single .boolean

def numberArray : TypeSet := single .numberArray

def string : TypeSet := single .string

instance : Inhabited TypeSet := ⟨none⟩

def has (s : TypeSet) (t : ValueType) : Bool := s.bits.getLsbD t.index

instance : Membership ValueType TypeSet := ⟨fun s t => s.has t = true⟩

instance (t : ValueType) (s : TypeSet) : Decidable (t ∈ s) :=
  inferInstanceAs (Decidable (s.has t = true))

instance : AndOp TypeSet := ⟨fun a b => ⟨a.bits &&& b.bits⟩⟩

instance : OrOp TypeSet := ⟨fun a b => ⟨a.bits ||| b.bits⟩⟩

instance : Complement TypeSet := ⟨fun a => ⟨~~~a.bits⟩⟩

def isEmpty (s : TypeSet) : Bool := s.bits == 0

/-- Whether two sets share a type. -/
def meets (a b : TypeSet) : Bool := !(a &&& b).isEmpty

/-- Whether every type of the second set is in the first. -/
def contains (a b : TypeSet) : Bool := (a &&& b) == b

/-- The types of a set, in the order in which they are shown. -/
def toList (s : TypeSet) : List ValueType := ValueType.all.filter s.has

/-- Whether exactly one type is in the set. -/
def isUnique (s : TypeSet) : Bool := s.toList.length == 1

def text (s : TypeSet) : String :=
  if s.isEmpty then "none" else "|".intercalate (s.toList.map ValueType.name)

theorem mem_and (t : ValueType) (a b : TypeSet) : t ∈ a &&& b ↔ t ∈ a ∧ t ∈ b := by
  show (a.bits &&& b.bits).getLsbD t.index = true ↔ _
  rw [BitVec.getLsbD_and, Bool.and_eq_true]
  rfl

theorem mem_or (t : ValueType) (a b : TypeSet) : t ∈ a ||| b ↔ t ∈ a ∨ t ∈ b := by
  show (a.bits ||| b.bits).getLsbD t.index = true ↔ _
  rw [BitVec.getLsbD_or, Bool.or_eq_true]
  rfl

theorem mem_complement (t : ValueType) (s : TypeSet) : t ∈ ~~~s ↔ t ∉ s := by
  show (~~~s.bits).getLsbD t.index = true ↔ ¬ s.bits.getLsbD t.index = true
  rw [BitVec.getLsbD_not]
  cases t <;> simp [ValueType.index]

theorem mem_single {t other : ValueType} : t ∈ single other ↔ t = other := by
  cases t <;> cases other <;> decide

/-- A set is known by its types. -/
theorem ext {a b : TypeSet} (h : ∀ t, t ∈ a ↔ t ∈ b) : a = b := by
  obtain ⟨a⟩ := a
  obtain ⟨b⟩ := b
  refine congrArg mk (BitVec.eq_of_getLsbD_eq fun i hi => Bool.eq_iff_iff.mpr ?_)
  have hPlace : i = 0 ∨ i = 1 ∨ i = 2 ∨ i = 3 ∨ i = 4 := by omega
  rcases hPlace with rfl | rfl | rfl | rfl | rfl
  · exact h .colour
  · exact h .number
  · exact h .boolean
  · exact h .numberArray
  · exact h .string

theorem exists_mem_of_isEmpty_eq_false {s : TypeSet} (h : s.isEmpty = false) : ∃ t, t ∈ s := by
  refine Classical.byContradiction fun hNone => ?_
  have hEq : s = none := ext fun t => iff_of_false (fun ht => hNone ⟨t, ht⟩) (by cases t <;> decide)
  rw [hEq] at h
  cases h

theorem exists_mem_of_meets {a b : TypeSet} (h : a.meets b) : ∃ t, t ∈ a ∧ t ∈ b := by
  obtain ⟨t, ht⟩ := exists_mem_of_isEmpty_eq_false (by simpa [meets] using h)
  exact ⟨t, (mem_and t a b).mp ht⟩

theorem mem_toList {t : ValueType} {s : TypeSet} : t ∈ s.toList ↔ t ∈ s := by
  refine List.mem_filter.trans (and_iff_right ?_)
  cases t <;> decide

theorem exists_eq_single {s : TypeSet} (h : s.isUnique) : ∃ t, s = single t := by
  obtain ⟨t, hList⟩ := List.length_eq_one_iff.mp (beq_iff_eq.mp h)
  refine ⟨t, ext fun other => ?_⟩
  rw [← mem_toList, hList, List.mem_singleton, mem_single]

end TypeSet

end PointStyle
