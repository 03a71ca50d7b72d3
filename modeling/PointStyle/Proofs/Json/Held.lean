import PointStyle.Proofs.Json.Record
import PointStyle.Proofs.Json.Value
import PointStyle.Proofs.Single

/-! Values as they are held in memory: whole numbers fit 64 bits, doubles are finite, and objects
are tables in order. Every value that is read from a text is held so, and a value that is held so is
read as it is. -/
namespace PointStyle

/-- A number of up to 64 bits is within the range of doubles. -/
theorem Datum.isFinite_toDouble (negative : Bool) {m : Nat} {q : Int}
    (h : (m : ℚ) * 2 ^ q ≤ 2 ^ (64 : Int)) :
    (Datum.finite negative m q).toDouble.isFinite = true := by
  rw [← isFinite_ofDouble]
  apply isFinite_nearest (twoPow_pos _)
  rw [cast_binary]
  exact h.trans (zpow_le_zpow_right₀ one_le_two (by decide))

namespace Json

/-- A number as it is held in memory. -/
def Number.IsHeld : Number → Prop
  | .whole n => -2 ^ 63 ≤ n ∧ n < 2 ^ 64
  | .double x => x.isFinite = true

instance : DecidablePred Number.IsHeld
  | .whole n => inferInstanceAs (Decidable (-2 ^ 63 ≤ n ∧ n < 2 ^ 64))
  | .double x => inferInstanceAs (Decidable (x.isFinite = true))

/-- A number that is held in memory stands for a finite double. -/
theorem Number.IsHeld.isFinite {n : Number} (h : n.IsHeld) : n.toDouble.isFinite = true := by
  cases n with
  | whole n =>
      apply Datum.isFinite_toDouble
      have hNat : n.natAbs ≤ 2 ^ 64 := by
        obtain ⟨hLow, hHigh⟩ := h
        omega
      have hCast : (n.natAbs : ℚ) ≤ 2 ^ 64 := by exact_mod_cast hNat
      rw [zpow_zero, mul_one]
      exact hCast
  | double x => exact h

/-- A value as it is held in memory. -/
inductive IsHeld : Json → Prop
  | null : IsHeld .null
  | bool (b : Bool) : IsHeld (.bool b)
  | number {n : Number} (hNumber : n.IsHeld) : IsHeld (.number n)
  | string (s : String) : IsHeld (.string s)
  | array {items : List Json} (hItems : ∀ item ∈ items, IsHeld item) : IsHeld (.array items)
  | object {members : Table Json} (hOrder : members.IsOrdered)
      (hMembers : ∀ entry ∈ members, IsHeld entry.2) : IsHeld (.object members)

/-- The numbers of a draft are as they are held in memory. -/
inductive Draft.IsHeld : Draft → Prop
  | null : IsHeld .null
  | bool (b : Bool) : IsHeld (.bool b)
  | number {n : Except Fault Number} (hNumber : ∀ value, n = .ok value → value.IsHeld) :
      IsHeld (.number n)
  | string (s : Except Fault String) : IsHeld (.string s)
  | array {items : List Draft} {stop : Option Break} (hItems : ∀ item ∈ items, IsHeld item) :
      IsHeld (.array items stop)
  | object {members : List (Except Fault String × Draft)} {stop : Option Break}
      (hMembers : ∀ member ∈ members, IsHeld member.2) : IsHeld (.object members stop)
  | broken (stop : Break) : IsHeld (.broken stop)

namespace Draft

section Reading

variable {source : Source} {items : List Draft} {members : List (Except Fault String × Draft)}
  {values : List Json} {table result : Table Json} {value : Json}

theorem isHeld_toItems
    (hItems : ∀ item ∈ items, ∀ {source value}, item.toJson source = .ok value → value.IsHeld)
    (h : toItems source items = .ok values) : ∀ value ∈ values, value.IsHeld := by
  induction items generalizing values with
  | nil =>
      cases h
      exact List.forall_mem_nil _
  | cons item rest ih =>
      obtain ⟨hFirst, hRest⟩ := List.forall_mem_cons.mp hItems
      rw [toItems] at h
      obtain ⟨first, hItem, h⟩ := bind_eq_ok h
      obtain ⟨others, hOthers, h⟩ := bind_eq_ok h
      cases h
      exact List.forall_mem_cons.mpr ⟨hFirst hItem, ih hRest hOthers⟩

/-- Members are held as they should if each of them is, besides those of the table that they are
added to. -/
theorem isHeld_toMembers
    (hMembers : ∀ member ∈ members, ∀ {source value},
      member.2.toJson source = .ok value → value.IsHeld)
    (hTable : ∀ entry ∈ table, entry.2.IsHeld) (h : toMembers source table members = .ok result) :
    ∀ entry ∈ result, entry.2.IsHeld := by
  induction members generalizing table with
  | nil =>
      cases h
      exact hTable
  | cons member rest ih =>
      obtain ⟨hFirst, hRest⟩ := List.forall_mem_cons.mp hMembers
      rw [toMembers] at h
      obtain ⟨name, -, h⟩ := bind_eq_ok h
      obtain ⟨value, hValue, h⟩ := bind_eq_ok h
      apply ih hRest ?_ h
      intro entry hEntry
      rcases Table.mem_insert hEntry with rfl | hOld
      · exact hFirst hValue
      · exact hTable entry hOld

/-- What is read of a held draft is held. -/
theorem IsHeld.toJson {draft : Draft} (hDraft : draft.IsHeld)
    (h : draft.toJson source = .ok value) :
    value.IsHeld := by
  induction hDraft generalizing source value with
  | null =>
      cases h
      exact .null
  | bool b =>
      cases h
      exact .bool b
  | @number n hNumber =>
      cases n with
      | error fault => cases h
      | ok n =>
          cases h
          exact .number (hNumber n rfl)
  | string s =>
      cases s with
      | error fault => cases h
      | ok s =>
          cases h
          exact .string s
  | array _ ih =>
      rw [Draft.toJson] at h
      obtain ⟨inner, -, h⟩ := bind_eq_ok h
      obtain ⟨values, hValues, h⟩ := bind_eq_ok h
      obtain ⟨_, -, h⟩ := bind_eq_ok h
      cases h
      exact .array (isHeld_toItems ih hValues)
  | object _ ih =>
      rw [Draft.toJson] at h
      obtain ⟨inner, -, h⟩ := bind_eq_ok h
      obtain ⟨values, hValues, h⟩ := bind_eq_ok h
      obtain ⟨_, -, h⟩ := bind_eq_ok h
      cases h
      exact .object (isOrdered_toMembers Table.isOrdered_nil hValues)
        (isHeld_toMembers ih (List.forall_mem_nil _) hValues)
  | broken stop => cases h

end Reading

end Draft

namespace Scanner

section Numbers

variable {negative : Bool} {n : Nat} {x : Float} {text rest : List Char}
  {result : Except Fault Number}

/-- A whole number is held as such or as a double, according to its size. -/
theorem isHeld_wholeNumber
    (h : (wholeNumber negative n).toDouble.isFinite = true) : (wholeNumber negative n).IsHeld := by
  have hHalf : twoPow 63 = 2 ^ 63 := rfl
  have hFull : twoPow 64 = 2 ^ 64 := rfl
  cases negative with
  | true =>
      rw [wholeNumber, if_pos rfl] at h ⊢
      split at h
      · rename_i hBeyond
        rw [if_pos hBeyond]
        exact h
      · rename_i hWithin
        rw [if_neg hWithin, Number.IsHeld]
        omega
  | false =>
      rw [wholeNumber, if_neg Bool.false_ne_true] at h ⊢
      split at h
      · rename_i hWithin
        rw [if_pos hWithin, Number.IsHeld]
        omega
      · rename_i hBeyond
        rw [if_neg hBeyond]
        exact h

theorem isHeld_inRange {value : Number} (h : inRange x = .ok value) : value.IsHeld := by
  unfold inRange at h
  split at h
  · rename_i hFinite
    rw [Datum.isFinite_ofDouble] at hFinite
    cases h
    exact hFinite
  · cases h

/-- The digits of a number are held as they should, whatever follows them. -/
theorem isHeld_magnitude (h : magnitude negative text = .ok (result, rest)) :
    (Draft.number result).IsHeld := by
  apply Draft.IsHeld.number
  rintro value rfl
  unfold magnitude at h
  obtain ⟨⟨whole, rest⟩, -, h⟩ := bind_eq_ok h
  obtain ⟨⟨fraction, rest⟩, -, h⟩ := bind_eq_ok h
  obtain ⟨⟨power, rest⟩, -, h⟩ := bind_eq_ok h
  simp only at h
  split at h
  · obtain ⟨hValue, -⟩ := Prod.mk.inj (Except.ok.inj h)
    split at hValue
    · rename_i hFinite
      rw [Datum.isFinite_ofDouble] at hFinite
      cases hValue
      exact isHeld_wholeNumber hFinite
    · cases hValue
  · obtain ⟨hValue, -⟩ := Prod.mk.inj (Except.ok.inj h)
    exact isHeld_inRange hValue

/-- The scan of a number gives one that is held as it should, or none. -/
theorem isHeld_number (text : List Char) : (number text).1.IsHeld := by
  unfold number
  simp only
  split
  · rename_i hScanned
    split at hScanned <;> exact isHeld_magnitude hScanned
  · exact .broken _

end Numbers

section Containers

variable {fuel : Nat} {done : List Draft} {named : List (Except Fault String × Draft)}
  {stop : Option Break}

theorem isHeld_array (h : ∀ item ∈ done, item.IsHeld) : (Draft.array done.reverse stop).IsHeld :=
  .array fun item hItem => h item (List.mem_reverse.mp hItem)

theorem isHeld_object (h : ∀ member ∈ named, member.2.IsHeld) :
    (Draft.object named.reverse stop).IsHeld :=
  .object fun member hMember => h member (List.mem_reverse.mp hMember)

/-- The scan of a word gives what the word stands for, or none. -/
theorem isHeld_wordDraft {letters : String} {draft : Draft} {text : List Char} (h : draft.IsHeld) :
    (wordDraft letters draft text).1.IsHeld := by
  unfold wordDraft
  split
  · exact h
  · exact .broken _

/-- What is scanned with some fuel is held, if what was scanned before is. -/
structure ScansHeld (fuel : Nat) : Prop where
  value : ∀ text, (value fuel text).1.IsHeld
  items : ∀ first done text, (∀ item ∈ done, Draft.IsHeld item) →
    (items fuel first done text).1.IsHeld
  item : ∀ done text, (∀ item ∈ done, Draft.IsHeld item) → (item fuel done text).1.IsHeld
  members : ∀ first named text, (∀ member ∈ named, Draft.IsHeld member.2) →
    (members fuel first named text).1.IsHeld
  member : ∀ named text, (∀ member ∈ named, Draft.IsHeld member.2) →
    (member fuel named text).1.IsHeld

theorem ScansHeld.zero : ScansHeld 0 where
  value _ := .broken _
  items _ _ _ h := isHeld_array h
  item _ _ h := isHeld_array h
  members _ _ _ h := isHeld_object h
  member _ _ h := isHeld_object h

/-- With more fuel, values are scanned as they should be held. -/
theorem ScansHeld.value_succ (h : ScansHeld fuel) (text : List Char) :
    (Scanner.value (fuel + 1) text).1.IsHeld := by
  rw [Scanner.value]
  split
  · exact .broken _
  · exact isHeld_wordDraft .null
  · exact isHeld_wordDraft (.bool true)
  · exact isHeld_wordDraft (.bool false)
  · split
    · exact .string _
    · exact .broken _
  · exact h.items _ _ _ (List.forall_mem_nil _)
  · exact h.members _ _ _ (List.forall_mem_nil _)
  · split
    · exact isHeld_number _
    · exact .broken _

theorem ScansHeld.items_succ (h : ScansHeld fuel) (first : Bool) (text : List Char)
    (hDone : ∀ item ∈ done, item.IsHeld) : (Scanner.items (fuel + 1) first done text).1.IsHeld := by
  rw [Scanner.items]
  split
  · exact isHeld_array hDone
  · exact isHeld_array hDone
  · split
    · exact h.item _ _ hDone
    · split
      · split
        · exact isHeld_array (List.forall_mem_cons.mpr ⟨.broken _, hDone⟩)
        · exact h.item _ _ hDone
      · exact isHeld_array hDone

theorem ScansHeld.item_succ (h : ScansHeld fuel) (text : List Char)
    (hDone : ∀ item ∈ done, item.IsHeld) : (Scanner.item (fuel + 1) done text).1.IsHeld := by
  have hNext := h.value text
  rw [Scanner.item]
  split <;> rename_i hScanned <;> rw [hScanned] at hNext
  · exact h.items _ _ _ (List.forall_mem_cons.mpr ⟨hNext, hDone⟩)
  · exact isHeld_array (List.forall_mem_cons.mpr ⟨hNext, hDone⟩)

theorem ScansHeld.members_succ (h : ScansHeld fuel) (first : Bool) (text : List Char)
    (hNamed : ∀ member ∈ named, member.2.IsHeld) :
    (Scanner.members (fuel + 1) first named text).1.IsHeld := by
  rw [Scanner.members]
  split
  · exact isHeld_object hNamed
  · exact isHeld_object hNamed
  · split
    · exact h.member _ _ hNamed
    · split
      · exact h.member _ _ hNamed
      · exact isHeld_object hNamed

theorem ScansHeld.member_succ (h : ScansHeld fuel) (text : List Char)
    (hNamed : ∀ member ∈ named, member.2.IsHeld) :
    (Scanner.member (fuel + 1) named text).1.IsHeld := by
  unfold Scanner.member
  split
  · split
    · exact isHeld_object hNamed
    · split
      · rename_i name _ _ rest _
        have hNext := h.value rest
        split <;> rename_i hScanned <;> rw [hScanned] at hNext
        · exact h.members _ _ _ (List.forall_mem_cons.mpr ⟨hNext, hNamed⟩)
        · exact isHeld_object (List.forall_mem_cons.mpr ⟨hNext, hNamed⟩)
      · exact isHeld_object (List.forall_mem_cons.mpr ⟨.broken _, hNamed⟩)
  · exact isHeld_object hNamed

/-- Whatever the fuel, everything is scanned as it should be held. -/
theorem scansHeld (fuel : Nat) : ScansHeld fuel := by
  induction fuel with
  | zero => exact .zero
  | succ fuel ih =>
      exact ⟨ih.value_succ, fun first _ text => ih.items_succ first text,
        fun _ text => ih.item_succ text, fun first _ text => ih.members_succ first text,
        fun _ text => ih.member_succ text⟩

end Containers

end Scanner

/-- The draft of any text is held as it should. -/
theorem isHeld_scan (text : String) : (scan text).1.IsHeld := by
  have hValue := (Scanner.scansHeld (3 * text.toList.length + 3)).value text.toList
  unfold scan
  simp only
  split <;> exact hValue

/-- Every value that is read from a text is held. -/
theorem isHeld_parse {text : String} {value : Json} (h : parse text = .ok value) :
    value.IsHeld := by
  obtain ⟨_, hRead, h⟩ := bind_eq_ok h
  obtain ⟨_, -, h⟩ := bind_eq_ok h
  cases h
  exact (isHeld_scan text).toJson hRead

end Json

end PointStyle
