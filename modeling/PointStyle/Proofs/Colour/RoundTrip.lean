import PointStyle.Colour.Document
import PointStyle.Proofs.Colour.Grammar
import PointStyle.Proofs.Decimal.ReadBack
import PointStyle.Proofs.Table

/-! Colours that are written and read again. The text of a colour is in the functional form, and its
JSON value is an object of its members. -/
namespace PointStyle

namespace Colour

open Decimal (Literal IsWord)

section Text

variable {c : Colour} {y : Float}

theorem literal_channel (n : UInt8) :
    Literal (toString n.toNat).toList (doubleOfDecimal false n.toNat 0) := by
  rw [Nat.toString_eq_ofList_toDigits, String.toList_ofList]
  exact Decimal.literal_natural .absent n.toNat

theorem channel_natural : ∀ n, n < 256 → channel (doubleOfDecimal false n 0) = UInt8.ofNat n := by
  decide +kernel

/-- A channel is the channel nearest to its own number. -/
theorem channel_toNat (n : UInt8) : channel (doubleOfDecimal false n.toNat 0) = n := by
  rw [channel_natural n.toNat n.toNat_lt, UInt8.ofNat_toNat]

/-- A number after a comma and one blank. -/
theorem moreNumbers_cons {number more : List Char} {x : Float} {xs : List Float}
    (hNumber : Literal number x) (hMore : MoreNumbers more xs) :
    MoreNumbers (", ".toList ++ number ++ more) (x :: xs) := by
  have hBefore : AreBlanks [] := by simp [AreBlanks]
  have hAfter : AreBlanks [' '] := by simp [AreBlanks, Text.isBlank]
  exact .cons hBefore hAfter hNumber hMore

/-- The pieces of the text of a colour. -/
theorem toList_text (c : Colour) :
    c.text.toList =
      "rgba".toList ++ '(' :: ((toString c.red.toNat).toList ++
        (", ".toList ++ ((toString c.green.toNat).toList ++
          (", ".toList ++ ((toString c.blue.toNat).toList ++
            (", ".toList ++ ((Decimal.plainSingle c.alpha).toList ++ [')']))))))) := by
  unfold text
  simp only [String.toList_append, List.append_assoc]
  rfl

/-- The text of a colour is in the functional form, with its four numbers. -/
theorem spells_text (h : Literal (Decimal.plainSingle c.alpha).toList y) :
    Spells c.text.toList ⟨c.red, c.green, c.blue, unitAlpha y⟩ := by
  have hMore := moreNumbers_cons (literal_channel c.green)
    (moreNumbers_cons (literal_channel c.blue) (moreNumbers_cons h .nil))
  have hColour := OfNumbers.alpha (doubleOfDecimal false c.red.toNat 0)
    (doubleOfDecimal false c.green.toNat 0) (doubleOfDecimal false c.blue.toNat 0) y
  rw [channel_toNat, channel_toNat, channel_toNat] at hColour
  have hWord : IsWord "rgba" "rgba".toList := by
    rw [IsWord]
    decide
  have hNone : AreBlanks [] := by simp [AreBlanks]
  have hSpells :=
    Spells.functional (.inr hWord) hNone hNone (literal_channel c.red) hMore hNone hColour
  rw [toList_text]
  simpa only [List.append_assoc, List.append_nil, List.nil_append, List.cons_append] using hSpells

/-- The text of a colour is read as its channels and as what its alpha is narrowed to. -/
theorem parse_text (h : Literal (Decimal.plainSingle c.alpha).toList y) :
    parse c.text = .ok ⟨c.red, c.green, c.blue, unitAlpha y⟩ := by
  have hSpells := spells_text h
  obtain ⟨core, last, hCore, hLast⟩ := Parser.last_of_spells hSpells
  have hStart : Text.dropBlanks c.text.toList = core ++ [last] ++ [] := by
    rw [List.append_nil, ← hCore]
    apply dropBlanks_of_begins
    rw [toList_text]
    simp [Begins, Text.isBlank]
  have hWhole : Parser.whole c.text.toList = .ok ⟨c.red, c.green, c.blue, unitAlpha y⟩ := by
    rw [Parser.whole_eq_ok_iff, trimBlanks_eq hStart (by simp [AreBlanks]) hLast, ← hCore]
    exact hSpells
  rw [parse, hWhole]
  rfl

end Text

section Members

theorem channelOfJson?_whole (n : UInt8) : channelOfJson? (.number (.whole n.toNat)) = some n := by
  have hLess := n.toNat_lt
  rw [channelOfJson?, if_pos (by omega), Int.toNat_natCast, UInt8.ofNat_toNat]

/-- A finite alpha that was widened to a double is read as it was. -/
theorem alphaOfJson?_widened {x : Float32} (h : x.isFinite = true) :
    alphaOfJson? (.ofDouble (Datum.ofSingle x).toDouble) = some x := by
  obtain ⟨negative, m, q, hWide, hSame⟩ := Datum.widen_single h
  rw [Json.ofDouble, hWide, Datum.isFinite, if_pos rfl, alphaOfJson?, hWide, hSame]

/-- The members of a colour are found by their names. -/
theorem toJson_eq (c : Colour) : ∃ members : Table Json, c.toJson = .object members ∧
    members.get? "r" = some (.number (.whole c.red.toNat)) ∧
    members.get? "g" = some (.number (.whole c.green.toNat)) ∧
    members.get? "b" = some (.number (.whole c.blue.toNat)) ∧
    members.get? "a" =
      if c.alpha = 1 then none else some (.ofDouble (Datum.ofSingle c.alpha).toDouble) := by
  refine ⟨_, rfl, ?_⟩
  by_cases hOne : c.alpha = 1 <;>
    simp [hOne, Table.ofEntries, Table.get?_insert_self, Table.get?_insert_of_ne]

/-- The JSON value of a colour with a finite alpha is read as the colour. -/
theorem ofJson_toJson {c : Colour} (h : c.alpha.isFinite = true) : ofJson c.toJson = .ok c := by
  obtain ⟨members, hObject, hRed, hGreen, hBlue, hAlpha⟩ := c.toJson_eq
  have hRead : ofMembers? members = some c := by
    by_cases hOne : c.alpha = 1
    · rw [if_pos hOne] at hAlpha
      simp [ofMembers?, hRed, hGreen, hBlue, hAlpha, channelOfJson?_whole, ← hOne]
    · rw [if_neg hOne] at hAlpha
      simp [ofMembers?, hRed, hGreen, hBlue, hAlpha, channelOfJson?_whole, alphaOfJson?_widened h]
  rw [hObject, ofJson, hRead]

end Members

/-- Colours can be written and read again. From alpha zero to one the text of a colour is read as
the colour if the decimal of the alpha reads back, and this is so for all alphas but one. The JSON
value is read as the colour whenever the alpha is finite; it has no alpha just in case that is
one. -/
theorem encodings_round_trip (c : Colour) :
    (0 ≤ c.alpha → c.alpha ≤ 1 →
      (parse c.text = .ok c ↔ Decimal.ReadsBack c.alpha) ∧
        (Decimal.ReadsBack c.alpha ↔ c.alpha ≠ Decimal.misread)) ∧
    (c.alpha.isFinite = true → ofJson c.toJson = .ok c) ∧
    ∃ members : Table Json, c.toJson = .object members ∧
      (members.get? "a" = none ↔ c.alpha = 1) := by
  refine ⟨fun hLow hHigh => ⟨?_, Decimal.readsBack_iff hLow hHigh⟩, ofJson_toJson, ?_⟩
  · obtain ⟨y, hLiteral, -, hNarrows⟩ := Decimal.literal_plainSingle hLow hHigh
    rw [Decimal.readsBack_iff hLow hHigh, ← hNarrows, parse_text hLiteral]
    constructor
    · intro hSame
      exact congrArg Colour.alpha (Except.ok.inj hSame)
    · intro hAlpha
      rw [unitAlpha, hAlpha]
  · obtain ⟨members, hObject, -, -, -, hAlpha⟩ := c.toJson_eq
    refine ⟨members, hObject, ?_⟩
    rw [hAlpha]
    split <;> simp_all

/-- A colour whose alpha, three tenths, has no exact single. -/
def sampleTint : Colour := ⟨255, 128, 0, Float32.ofBits 0x3E99999A⟩

theorem encodings_round_trip_sampleTint :
    0 ≤ sampleTint.alpha ∧ sampleTint.alpha ≤ 1 ∧ sampleTint.alpha.isFinite = true ∧
      parse sampleTint.text = .ok sampleTint ∧ ofJson sampleTint.toJson = .ok sampleTint := by
  have hLow : 0 ≤ sampleTint.alpha := by decide
  have hHigh : sampleTint.alpha ≤ 1 := by decide
  have hFinite : sampleTint.alpha.isFinite = true := by decide
  obtain ⟨hText, hJson, -⟩ := encodings_round_trip sampleTint
  obtain ⟨hParse, hReads⟩ := hText hLow hHigh
  have hOther : sampleTint.alpha ≠ Decimal.misread := by decide
  exact ⟨hLow, hHigh, hFinite, hParse.mpr (hReads.mpr hOther), hJson hFinite⟩

end Colour

end PointStyle
