import PointStyle.Colour.Document
import PointStyle.Proofs.Colour.Components
import PointStyle.Proofs.Colour.Grammar

/-! The alpha of colours that are read. Every form of a colour text has an alpha from zero to one,
with one exception: the functional form takes `nan` for its fourth number. The alpha of a JSON
object is taken as it is, so it lies between zero and one only if the number does. -/
namespace PointStyle

/-- The number that a JSON number stands for. -/
def Json.Number.value? : Json.Number → Option ℚ
  | .whole n => some n
  | .double x => (Datum.ofDouble x).value?

namespace Colour

open Decimal (Literal IsWord)

/-- A text in functional form, with its numbers. -/
inductive Functional : List Char → List Float → Prop
  | intro {word before after number more last : List Char} {x : Float} {xs : List Float}
      (hWord : IsWord "rgb" word ∨ IsWord "rgba" word) (hBefore : AreBlanks before)
      (hAfter : AreBlanks after) (hNumber : Literal number x) (hMore : MoreNumbers more xs)
      (hLast : AreBlanks last) :
      Functional (word ++ before ++ '(' :: after ++ number ++ more ++ last ++ [')']) (x :: xs)

/-- A text in functional form whose fourth number is this one. -/
def GivesAlpha (input : String) (a : Float) : Prop :=
  ∃ r g b, Functional (trimBlanks input.toList) [r, g, b, a]

/-- What leads to an alpha that is not between zero and one: `nan` in a text, and a number in an
object that is not nearest to a single between zero and one. -/
def StrayAlpha : Json → Prop
  | .string input => GivesAlpha input Datum.nan.toDouble
  | .object members => ∃ n : Json.Number, Table.get? members "a" = some (.number n) ∧
      ∀ v, n.value? = some v → v < -2 ^ (-150 : Int) ∨ 1 + 2 ^ (-24 : Int) < v
  | _ => False

section Texts

variable {text : List Char} {c : Colour} {input : String}

/-- The pattern of an alpha that is given by a number. -/
theorem toBits_unitAlpha (a : Float) :
    a = Datum.nan.toDouble ∨ a = (Datum.zero true).toDouble ∨
      (unitAlpha a).toBits.toNat ≤ Datum.oneBits := by
  have hZero : (Datum.zero false).toSingle.toBits.toNat ≤ Datum.oneBits := by decide
  have hOne : Datum.one.toSingle.toBits.toNat ≤ Datum.oneBits := by decide
  rw [unitAlpha]
  cases hDatum : Datum.ofDouble a with
  | nan => exact .inl (Datum.eq_of_ofDouble_nan hDatum)
  | infinite negative =>
      right; right
      cases negative
      · exact hOne
      · exact hZero
  | finite negative m e =>
      right
      by_cases hNone : m = 0
      · subst hNone
        cases negative
        · exact .inr hZero
        · exact .inl (Datum.eq_of_ofDouble_zero hDatum)
      · right
        rw [Datum.clampUnit, if_neg hNone]
        split
        · exact hZero
        · split
          · exact hOne
          · rename_i hBelow
            have hDen := twoPow_pos (-e).toNat
            rw [Datum.toBits_toSingle, BinaryFormat.encode, BinaryFormat.signed, if_neg (by decide),
              Datum.nearest_le_one_iff hDen]
            have hUnit : ((m * twoPow e.toNat : Nat) : ℚ) / (twoPow (-e).toNat : Nat) ≤ 1 :=
              div_le_one_of_le₀ (by exact_mod_cast Nat.not_lt.mp hBelow) (by positivity)
            exact hUnit.trans (by norm_num)

theorem hexDigit_le {ch : Char} {x : Nat} (h : HexDigit ch x) : x ≤ 15 :=
  Nat.le_of_lt_succ (List.getElem?_eq_some_iff.mp h).1

/-- A channel in hexadecimal digits is at most 255, whether it has one digit or two. -/
theorem hexChannel_le {width x : Nat} (h : HexChannel width text x) : x ≤ 255 := by
  cases h with
  | single hDigit =>
      have := hexDigit_le hDigit
      omega
  | double hHigh hLow =>
      have := hexDigit_le hHigh
      have := hexDigit_le hLow
      omega

/-- An alpha in parts of 255 has at most the pattern of one. -/
theorem toBits_singleOfRatio_le {x : Nat} (h : x ≤ 255) :
    (singleOfRatio x 255).toBits.toNat ≤ Datum.oneBits := by
  have hBits := @Datum.toBits_signed false _ (BinaryFormat.single.nearest_le x 255)
  rw [BinaryFormat.signed, if_neg (by decide)] at hBits
  rw [singleOfRatio, hBits, Datum.nearest_le_one_iff (by decide)]
  have hUnit : (x : ℚ) / (255 : Nat) ≤ 1 :=
    div_le_one_of_le₀ (by exact_mod_cast h) (by positivity)
  exact hUnit.trans (by norm_num)

/-- Only a fourth number can make the alpha of a text other than a number from zero to one. -/
theorem alpha_of_spells (h : Spells text c) :
    c.alpha.toBits.toNat ≤ Datum.oneBits ∨
      ∃ r g b a, Functional text [r, g, b, a] ∧ c.alpha = unitAlpha a := by
  cases h with
  | hex hRed hGreen hBlue => exact .inl (toBits_singleOfRatio_le (le_refl 255))
  | hexAlpha hRed hGreen hBlue hAlpha => exact .inl (toBits_singleOfRatio_le (hexChannel_le hAlpha))
  | functional hWord hBefore hAfter hNumber hMore hLast hColour =>
      cases hColour with
      | solid =>
          left
          show (1 : Float32).toBits.toNat ≤ Datum.oneBits
          decide
      | alpha =>
          right
          exact ⟨_, _, _, _, .intro hWord hBefore hAfter hNumber hMore hLast, rfl⟩
  | name hLetters hNamed =>
      left
      have hAll : ∀ entry ∈ named, entry.2.alpha.toBits.toNat ≤ Datum.oneBits := by decide
      exact hAll _ hNamed

/-- Reading a text succeeds just in case a colour makes up the whole of it. -/
theorem whole_of_parse : parse input = .ok c ↔ Parser.whole input.toList = .ok c := by
  rw [parse]
  cases Parser.whole input.toList <;> simp [Except.mapError]

/-- The functional form with enough numbers spells a colour. -/
theorem Functional.spells {xs : List Float} (h : Functional text xs) (hColour : OfNumbers xs c) :
    Spells text c := by
  cases h with
  | intro hWord hBefore hAfter hNumber hMore hLast =>
      exact .functional hWord hBefore hAfter hNumber hMore hLast hColour

/-- The fourth number of a text is its alpha, once it is moved into the unit interval. -/
theorem alpha_of_givesAlpha {a : Float} (hGives : GivesAlpha input a) (h : parse input = .ok c) :
    c.alpha = unitAlpha a := by
  obtain ⟨r, g, b, hText⟩ := hGives
  have hWhole := Parser.whole_eq_ok_iff.mpr (hText.spells (.alpha r g b a))
  rw [whole_of_parse, hWhole] at h
  cases h
  rfl

/-- What the alpha of a text can be. -/
theorem alpha_of_parse (h : parse input = .ok c) :
    GivesAlpha input Datum.nan.toDouble ∨ GivesAlpha input (Datum.zero true).toDouble ∨
      c.alpha.toBits.toNat ≤ Datum.oneBits := by
  rcases alpha_of_spells (Parser.whole_eq_ok_iff.mp (whole_of_parse.mp h)) with hBits | hNumber
  · exact .inr (.inr hBits)
  · obtain ⟨r, g, b, a, hText, hAlpha⟩ := hNumber
    rw [hAlpha]
    rcases toBits_unitAlpha a with rfl | rfl | hBits
    · exact .inl ⟨r, g, b, hText⟩
    · exact .inr (.inl ⟨r, g, b, hText⟩)
    · exact .inr (.inr hBits)

/-- A text that gives `nan` for its alpha is read as a colour whose alpha is not a number. -/
theorem alpha_of_nan (h : parse input = .ok c) (hNan : GivesAlpha input Datum.nan.toDouble) :
    c.alpha = Datum.nan.toSingle := by
  rw [alpha_of_givesAlpha hNan h]
  decide

/-- A text that gives a negative zero for its alpha is read as a colour with that zero. -/
theorem alpha_of_negativeZero (h : parse input = .ok c)
    (hZero : GivesAlpha input (Datum.zero true).toDouble) :
    c.alpha = (Datum.zero true).toSingle := by
  rw [alpha_of_givesAlpha hZero h]
  decide

/-- The alpha of a text lies between zero and one unless it is given as `nan`. -/
theorem unit_of_parse_iff (h : parse input = .ok c) :
    0 ≤ c.alpha ∧ c.alpha ≤ 1 ↔ ¬ GivesAlpha input Datum.nan.toDouble := by
  rw [Datum.unit_iff_toBits]
  constructor
  · intro hUnit hNan
    rw [alpha_of_nan h hNan] at hUnit
    revert hUnit
    decide
  · intro hNumber
    rcases alpha_of_parse h with hNan | hZero | hBits
    · exact absurd hNan hNumber
    · rw [alpha_of_negativeZero h hZero]
      decide
    · exact .inl hBits

end Texts

section Objects

/-- The datum that an object's number is turned into before it is narrowed. -/
def datumOfNumber : Json.Number → Datum
  | .whole n => .ofInt n
  | .double x => .ofDouble x

theorem value?_datumOfNumber (n : Json.Number) : (datumOfNumber n).value? = n.value? := by
  cases n with
  | double x => rfl
  | whole n =>
      rw [datumOfNumber, Datum.ofInt, Datum.value?, Json.Number.value?]
      simp only [decide_eq_true_eq, zpow_zero, mul_one, Nat.cast_natAbs]
      split
      · rename_i hNegative
        rw [abs_of_neg hNegative]
        simp
      · rename_i hNonneg
        rw [abs_of_nonneg (not_lt.mp hNonneg)]

/-- The alpha of an object is one, or the single nearest to its number. -/
theorem alpha_of_members {members : Table Json} {c : Colour} (h : ofMembers? members = some c) :
    members.get? "a" = none ∧ c.alpha = 1 ∨
      ∃ n, members.get? "a" = some (.number n) ∧ c.alpha = (datumOfNumber n).toSingle := by
  unfold ofMembers? at h
  simp only [Option.bind_eq_bind, Option.bind_eq_some_iff] at h
  obtain ⟨red, -, green, -, blue, -, hColour⟩ := h
  cases hMember : members.get? "a" with
  | none =>
      rw [hMember] at hColour
      cases hColour
      exact .inl ⟨rfl, rfl⟩
  | some value =>
      rw [hMember] at hColour
      obtain ⟨alpha, hAlpha, hColour⟩ := Option.bind_eq_some_iff.mp hColour
      cases hColour
      right
      cases value with
      | number n =>
          cases n <;> cases hAlpha <;> exact ⟨_, rfl, rfl⟩
      | _ => cases hAlpha

/-- The alpha of an object lies between zero and one if its number does, up to rounding. -/
theorem unit_of_members_iff {members : Table Json} {c : Colour} (h : ofMembers? members = some c) :
    0 ≤ c.alpha ∧ c.alpha ≤ 1 ↔ ¬ StrayAlpha (.object members) := by
  rcases alpha_of_members h with ⟨hNone, hAlpha⟩ | ⟨n, hNumber, hAlpha⟩
  · rw [hAlpha]
    refine iff_of_true (by decide) ?_
    rintro ⟨n, hSome, _⟩
    rw [hNone] at hSome
    cases hSome
  · rw [hAlpha, Datum.unit_toSingle_iff, value?_datumOfNumber]
    constructor
    · rintro ⟨v, hValue, hLow, hHigh⟩ ⟨other, hSome, hStray⟩
      cases hNumber.symm.trans hSome
      rcases hStray v hValue with hLess | hMore
      · exact absurd hLow (not_le.mpr hLess)
      · exact absurd hHigh (not_le.mpr hMore)
    · intro hKept
      by_contra hNot
      refine hKept ⟨n, hNumber, fun v hValue => ?_⟩
      by_contra hBetween
      rw [not_or, not_lt, not_lt] at hBetween
      exact hNot ⟨v, hValue, hBetween⟩

end Objects

/-- The alpha of a colour that is read from a JSON value lies between zero and one unless something
leads it astray. -/
theorem unit_of_ofJson_iff {value : Json} {c : Colour} (h : ofJson value = .ok c) :
    0 ≤ c.alpha ∧ c.alpha ≤ 1 ↔ ¬ StrayAlpha value := by
  cases value with
  | string input =>
      apply unit_of_parse_iff
      rw [ofJson] at h
      cases hParse : parse input with
      | error fault =>
          rw [hParse] at h
          cases h
      | ok found =>
          rw [hParse] at h
          cases h
          rfl
  | object members =>
      apply unit_of_members_iff
      rw [ofJson] at h
      cases hMembers : ofMembers? members with
      | none =>
          rw [hMembers] at h
          cases h
      | some found =>
          rw [hMembers] at h
          cases h
          rfl
  | _ => cases h

theorem isFinite_of_unit {x : Float32} (h : 0 ≤ x ∧ x ≤ 1) : x.isFinite = true := by
  rw [← Datum.isFinite_ofSingle]
  exact Datum.isFinite_of_toBits_le_one (Datum.unit_iff_toBits.mp h)

/-- The alpha of a colour that is read lies between zero and one unless something leads it astray;
what can are `nan` in a text, which becomes the alpha, and a number out of range in an object. An
alpha between zero and one is finite, and with a finite alpha all components are finite and the
colour is written as a vector of float literals. -/
theorem alpha_unit_unless_stray (c : Colour) :
    (∀ input, parse input = .ok c →
      (0 ≤ c.alpha ∧ c.alpha ≤ 1 ↔ ¬ GivesAlpha input Datum.nan.toDouble) ∧
      (GivesAlpha input Datum.nan.toDouble → c.alpha = Datum.nan.toSingle)) ∧
    (∀ value, ofJson value = .ok c → (0 ≤ c.alpha ∧ c.alpha ≤ 1 ↔ ¬ StrayAlpha value)) ∧
    (0 ≤ c.alpha ∧ c.alpha ≤ 1 → c.alpha.isFinite = true) ∧
    ∀ red green blue alpha, c.components = (red, green, blue, alpha) →
      (red.isFinite = true ∧ green.isFinite = true ∧ blue.isFinite = true ∧ alpha.isFinite = true ↔
        c.alpha.isFinite = true) ∧
      (c.alpha.isFinite = true → ∃ x y z w,
        Glsl.colour red green blue alpha =
          "vec4(" ++ x ++ ", " ++ y ++ ", " ++ z ++ ", " ++ w ++ ")" ∧
        ∀ literal ∈ [x, y, z, w], Glsl.IsFloatLiteral literal) := by
  refine ⟨fun input hParse => ⟨unit_of_parse_iff hParse, alpha_of_nan hParse⟩,
    fun value hRead => unit_of_ofJson_iff hRead, isFinite_of_unit, ?_⟩
  intro red green blue alpha hComponents
  have hFinite := c.isFinite_components_iff
  have hLiterals := c.colour_literals
  rw [hComponents] at hFinite hLiterals
  exact ⟨hFinite, hLiterals⟩

/-- Red, half of it transparent. -/
def sampleVeil : Colour := ⟨255, 0, 0, 0.5⟩

/-- The same colour in JSON. -/
def sampleVeilObject : Json :=
  .object [("a", .number (.double 0.5)), ("b", .number (.whole 0)), ("g", .number (.whole 0)),
    ("r", .number (.whole 255))]

theorem alpha_unit_unless_stray_sampleVeil :
    parse " rgba(255, 0, 0, 0.5)" = .ok sampleVeil ∧ ofJson sampleVeilObject = .ok sampleVeil ∧
      ¬ GivesAlpha " rgba(255, 0, 0, 0.5)" Datum.nan.toDouble ∧ ¬ StrayAlpha sampleVeilObject ∧
      ∃ red green blue alpha x y z w, sampleVeil.components = (red, green, blue, alpha) ∧
        alpha.isFinite = true ∧
        Glsl.colour red green blue alpha =
          "vec4(" ++ x ++ ", " ++ y ++ ", " ++ z ++ ", " ++ w ++ ")" ∧
        ∀ literal ∈ [x, y, z, w], Glsl.IsFloatLiteral literal := by
  have hParse : parse " rgba(255, 0, 0, 0.5)" = .ok sampleVeil := by decide +kernel
  have hRead : ofJson sampleVeilObject = .ok sampleVeil := by rfl
  have hUnit : 0 ≤ sampleVeil.alpha ∧ sampleVeil.alpha ≤ 1 := by decide
  obtain ⟨hTexts, hObjects, hFinite, hComponents⟩ := alpha_unit_unless_stray sampleVeil
  obtain ⟨hAll, hLiterals⟩ := hComponents _ _ _ _ rfl
  obtain ⟨x, y, z, w, hText, hForm⟩ := hLiterals (hFinite hUnit)
  exact ⟨hParse, hRead, (hTexts _ hParse).1.mp hUnit, (hObjects _ hRead).mp hUnit,
    _, _, _, _, x, y, z, w, rfl, (hAll.mpr (hFinite hUnit)).2.2.2, hText, hForm⟩

/-- An object may have an alpha of five, and a text one that is not a number. -/
theorem alpha_beyond_unit :
    ofJson (.object [("a", .number (.whole 5)), ("b", .number (.whole 3)),
        ("g", .number (.whole 2)), ("r", .number (.whole 1))]) = .ok ⟨1, 2, 3, 5⟩ ∧
      ¬ (5 : Float32) ≤ 1 ∧
      parse "rgba(1, 2, 3, nan)" = .ok ⟨1, 2, 3, Datum.nan.toSingle⟩ ∧
      ¬ 0 ≤ Datum.nan.toSingle :=
  ⟨by rfl, by decide, by decide, by decide⟩

end Colour

end PointStyle
