import PointStyle.Decimal.Format
import PointStyle.Proofs.Decimal.Grammar
import PointStyle.Proofs.Decimal.Narrowing

/-! Texts of singles. The text of a single from zero to one is a literal. Read as a double and
narrowed, it is the single again, but for one of them. -/
namespace PointStyle

namespace Decimal

/-- The text of a single is a literal, and the double that it is read as is narrowed to the
single. -/
def ReadsBack (x : Float32) : Prop :=
  ∃ y, readLiteral (plainSingle x).toList = .ok (y, []) ∧ (Datum.ofDouble y).toSingle = x

/-- The single whose decimal lies so near to the midpoint to its neighbour that it is read as the
midpoint. -/
def misread : Float32 := Float32.ofBits 0x15AE43FD

section Texts

theorem readLiteral_of_literal {text : List Char} {y : Float} (h : Literal text y) :
    readLiteral text = .ok (y, []) := by
  have hRead : readLiteral (text ++ []) = .ok (y, []) := readLiteral_append h (by simp [Begins])
  rwa [List.append_nil] at hRead

theorem digitsValue_eq (text : List Char) : digitsValue text = Nat.ofDigitChars 10 text 0 :=
  Nat.ofDigitChars_eq_foldl.symm

/-- The digits of a decimal have its coefficient as their value. -/
theorem digitsValue_digits (d : Decimal) : digitsValue d.digits = d.coefficient := by
  rw [digitsValue_eq, digits, Nat.ofDigitChars_ten_toDigits]

/-- The digits of a natural number, with a sign or without, are a literal for it. -/
theorem literal_natural {sign : List Char} {negative : Bool} (hSign : Sign sign negative)
    (n : Nat) :
    Literal (sign ++ Nat.toDigits 10 n) (doubleOfDecimal negative n 0) := by
  have hDigits : IsDigits (Nat.toDigits 10 n) := isDigits_digits ⟨n, 0⟩
  have hValue : digitsValue (Nat.toDigits 10 n) = n := digitsValue_digits ⟨n, 0⟩
  have hDecimal := Literal.decimal hSign (.digits hDigits) .absent
  rwa [List.append_nil, List.append_nil, hValue] at hDecimal

/-- A decimal with places after the point is written as a literal for it. -/
theorem literal_positional {d : Decimal} (h : d.exponent < 0) :
    Literal (d.positional "").toList (doubleOfDecimal false d.coefficient d.exponent) := by
  obtain ⟨whole, fraction, zeros, hText, hWhole, hFraction, hDigits, hLength⟩ := positional_split h
  have hValue : digitsValue (whole ++ fraction) = d.coefficient := by
    rw [hDigits, digitsValue_eq, Nat.ofDigitChars_append, Nat.ofDigitChars_replicate_zero,
      Nat.mul_zero, ← digitsValue_eq, digitsValue_digits]
  have hDecimal := Literal.decimal .absent (.pointed hWhole hFraction) .absent
  rwa [hValue, hLength, List.nil_append, List.append_nil, ← hText,
    show (0 : Int) - ((-d.exponent).toNat : Int) = d.exponent by omega] at hDecimal

end Texts

section Unit

variable {x : Float32} {negative : Bool} {m : Nat} {q : Int}

/-- A double whose clamping and narrowing give the single. -/
def Narrows (x : Float32) (y : Float) : Prop :=
  (Datum.ofDouble y).toSingle = x ∧ (Datum.ofDouble y).clampUnit.toSingle = x

theorem isFinite_of_ofSingle (h : Datum.ofSingle x = .finite negative m q) : x.isFinite = true := by
  rw [← Datum.isFinite_ofSingle, h]
  rfl

/-- Zeros keep their sign. -/
theorem zero_reads_back (h : Datum.ofSingle x = .finite negative 0 q) :
    Literal (plainSingle x).toList (doubleOfDecimal negative 0 0) ∧
      Narrows x (doubleOfDecimal negative 0 0) := by
  have hZero : ∀ e, (Datum.finite negative 0 e).toSingle = x := by
    intro e
    apply Datum.toSingle_eq (isFinite_of_ofSingle h)
    rw [BinaryFormat.encode_zero, Datum.toBits_of_zero h]
  have hDouble : Datum.ofDouble (doubleOfDecimal negative 0 0) = .finite negative 0 (-1074) := by
    cases negative <;> decide
  have hText : (plain.text .single (.finite negative 0 q)).toList =
      (if negative then ['-'] else []) ++ Nat.toDigits 10 0 := by
    cases negative <;> simp [Format.text, Format.magnitudeText, plain]
  refine ⟨?_, ?_, ?_⟩
  · rw [plainSingle, h, hText]
    apply literal_natural
    cases negative with
    | false => exact .absent
    | true => exact .minus
  · rw [hDouble]
    exact hZero _
  · rw [hDouble]
    exact hZero 0

theorem one_reads_back :
    Literal (plainSingle 1).toList (doubleOfDecimal false 1 0) ∧
    Narrows 1 (doubleOfDecimal false 1 0) := by
  have hText : (plainSingle 1).toList = Nat.toDigits 10 1 := by decide
  refine ⟨?_, by decide, by decide⟩
  rw [hText]
  exact literal_natural .absent 1

/-- Clamping does nothing to a positive number that is one at most. -/
theorem clampUnit_of_unit (hLow : 0 < (m : ℚ) * 2 ^ q) (hHigh : (m : ℚ) * 2 ^ q ≤ 1) :
    (Datum.finite false m q).clampUnit = .finite false m q := by
  have hPos : m ≠ 0 := by
    rintro rfl
    rw [Nat.cast_zero, zero_mul] at hLow
    exact lt_irrefl _ hLow
  have hDen : (0 : ℚ) < (twoPow (-q).toNat : Nat) := by exact_mod_cast twoPow_pos _
  have hNotAbove : ¬ twoPow (-q).toNat < m * twoPow q.toNat := by
    rw [← cast_binary, div_le_one hDen, Nat.cast_le] at hHigh
    exact Nat.not_lt.mpr hHigh
  rw [Datum.clampUnit, if_neg hPos, if_neg (by decide), if_neg hNotAbove]

/-- The single that is not read back, by its significand and its exponent. -/
theorem datum_misread : Datum.ofSingle misread = .finite false 11420669 (-107) := by decide

/-- A positive single below one is written with places after the point. -/
theorem small_reads_back (h : Datum.ofSingle x = .finite false m q) (hPos : 0 < m)
    (hMost : q ≤ -24) :
    ∃ y, Literal (plainSingle x).toList y ∧ (x ≠ misread → Narrows x y) := by
  obtain ⟨hHas, hBits⟩ := Datum.toBits_of_ofSingle h
  obtain ⟨-, hPlaces⟩ := shortest_single_places hHas hPos hMost
  have hText : plainSingle x = (shortest .single .up m q).positional "" := by
    rw [plainSingle, h, Format.text, Format.magnitudeText, if_neg hPos.ne']
    exact String.empty_append
  refine ⟨_, hText ▸ literal_positional hPlaces, fun hOther => ?_⟩
  have hNot : ¬ (m = 11420669 ∧ q = -107) := by
    rintro ⟨rfl, rfl⟩
    apply hOther
    apply Datum.eq_of_toBits
    apply UInt32.toNat_inj.mp
    rw [hBits, (Datum.toBits_of_ofSingle datum_misread).2]
  obtain ⟨m', q', hDouble, hLow, hHigh, hEncode⟩ := narrow_shortest hHas hPos hMost hNot
  have hSingle : (Datum.finite false m' q').toSingle = x := by
    apply Datum.toSingle_eq (isFinite_of_ofSingle h)
    rw [hEncode, hBits]
  rw [Narrows, hDouble, clampUnit_of_unit hLow hHigh.le]
  exact ⟨hSingle, hSingle⟩

/-- The text of the exception is read as the midpoint, and that is narrowed to the neighbour. -/
theorem misread_neighbour {y : Float} (h : Literal (plainSingle misread).toList y) :
    (Datum.ofDouble y).toSingle ≠ misread ∧ (Datum.ofDouble y).clampUnit.toSingle ≠ misread := by
  have hMidpoint : (readLiteral (plainSingle misread).toList).toOption.map (Datum.ofDouble ·.1) =
      some (.finite false 6131425250115584 (-136)) := by decide
  rw [readLiteral_of_literal h] at hMidpoint
  have hDatum : Datum.ofDouble y = .finite false 6131425250115584 (-136) :=
    Option.some.inj hMidpoint
  rw [hDatum]
  decide

/-- The text of a single from zero to one is a literal. The double that it is read as is narrowed to
the single, clamped or not, unless the single is the exception. -/
theorem literal_plainSingle (hLow : 0 ≤ x) (hHigh : x ≤ 1) :
    ∃ y, Literal (plainSingle x).toList y ∧ ((Datum.ofDouble y).toSingle = x ↔ x ≠ misread) ∧
      ((Datum.ofDouble y).clampUnit.toSingle = x ↔ x ≠ misread) := by
  have hLiteral : ∃ y, Literal (plainSingle x).toList y ∧ (x ≠ misread → Narrows x y) := by
    rcases Datum.unit_cases hLow hHigh with ⟨negative, hZero⟩ | rfl | ⟨m, q, hDatum, hPos, hMost⟩
    · obtain ⟨hLiteral, hNarrows⟩ := zero_reads_back hZero
      exact ⟨_, hLiteral, fun _ => hNarrows⟩
    · obtain ⟨hLiteral, hNarrows⟩ := one_reads_back
      exact ⟨_, hLiteral, fun _ => hNarrows⟩
    · exact small_reads_back hDatum hPos hMost
  obtain ⟨y, hLiteral, hNarrows⟩ := hLiteral
  refine ⟨y, hLiteral, ⟨?_, fun hOther => (hNarrows hOther).1⟩, ?_,
    fun hOther => (hNarrows hOther).2⟩
  · rintro hSame rfl
    exact (misread_neighbour hLiteral).1 hSame
  · rintro hSame rfl
    exact (misread_neighbour hLiteral).2 hSame

/-- Up to one, all singles but one read back. -/
theorem readsBack_iff (hLow : 0 ≤ x) (hHigh : x ≤ 1) : ReadsBack x ↔ x ≠ misread := by
  obtain ⟨y, hLiteral, hNarrows, -⟩ := literal_plainSingle hLow hHigh
  rw [← hNarrows]
  constructor
  · rintro ⟨y', hRead, hSame⟩
    rw [readLiteral_of_literal hLiteral] at hRead
    cases hRead
    exact hSame
  · intro hSame
    exact ⟨y, readLiteral_of_literal hLiteral, hSame⟩

end Unit

end Decimal

end PointStyle
