import PointStyle.LiteralTable
import PointStyle.Proofs.Binary.Pattern

/-! Doubles and the patterns they are stored as. Finite patterns are stored as they are, one pattern
is not a number, and natural numbers of up to 53 bits are doubles, so the codes of strings are
numbers that tell them apart. -/
namespace PointStyle

open Float.Model Float.Model.UnpackedFloat

namespace Pattern

theorem toNat_ofNat {bits : Nat} (hBits : bits < 18446744073709551616) :
    (UInt64.ofNat bits).toBitVec.toNat = bits :=
  UInt64.toNat_ofNat_of_lt' hBits

end Pattern

namespace BinaryFormat

theorem double_signBit : double.signBit = 9223372036854775808 := by decide

theorem double_infinityBits : double.infinityBits = 9218868437227405312 := by decide

theorem double_leastExponent : double.leastExponent = -1074 := by decide

theorem double_fraction : twoPow double.fractionBits = 4503599627370496 := by decide

end BinaryFormat

namespace Pattern

variable {bits : Nat}

/-- The exponent field of a pattern whose magnitude is below that of infinity. -/
theorem unpackExponent_ne (hBits : bits < 2 * BinaryFormat.double.signBit)
    (hFinite : bits % BinaryFormat.double.signBit < BinaryFormat.double.infinityBits) :
    @unpackExponent Format.binary64 (UInt64.ofNat bits).toBitVec ≠ -1#_ := by
  rw [BinaryFormat.double_signBit] at hBits
  refine (@BinaryFormat.magnitude_lt_iff Format.binary64 _).mp ?_
  rw [toNat_ofNat (by omega)]
  exact hFinite

/-- A finite pattern is stored as it is. -/
theorem toBits_ofBits (hBits : bits < 2 * BinaryFormat.double.signBit)
    (hFinite : bits % BinaryFormat.double.signBit < BinaryFormat.double.infinityBits) :
    (Float.ofBits (UInt64.ofNat bits)).toBits = UInt64.ofNat bits :=
  congrArg UInt64.ofBitVec (pack_unpack (by decide) (unpackExponent_ne hBits hFinite))

end Pattern

/-- A finite pattern is read back as it was written. -/
theorem Datum.ofDouble_ofBits {bits : Nat} (hBits : bits < 2 * BinaryFormat.double.signBit)
    (hFinite : bits % BinaryFormat.double.signBit < BinaryFormat.double.infinityBits) :
    ofDouble (Float.ofBits (UInt64.ofNat bits)) = BinaryFormat.double.decode bits := by
  rw [ofDouble, Pattern.toBits_ofBits hBits hFinite]
  rw [BinaryFormat.double_signBit] at hBits
  exact congrArg _ (Pattern.toNat_ofNat (by omega))

namespace Datum

/-- A double is known by its pattern. -/
theorem eq_of_toBits_double {x y : Float} (h : x.toBits = y.toBits) : x = y := by
  obtain ⟨⟨bits, _⟩⟩ := x
  obtain ⟨⟨others, _⟩⟩ := y
  obtain rfl : bits = others := h
  rfl

/-- A double is read as it is unpacked. -/
theorem ofDouble_eq (x : Float) : ofDouble x = ofUnpacked (-1074) x.toModel.unpack :=
  BinaryFormat.double_leastExponent ▸ @BinaryFormat.decode_ofSpec Format.binary64 x.toBits.toBitVec

/-- A double is finite just in case the datum that it stands for is. -/
theorem isFinite_ofDouble (x : Float) : (ofDouble x).isFinite = x.isFinite := by
  rw [ofDouble_eq]
  exact isFinite_ofUnpacked ..

/-- There is one double that is not a number. -/
theorem eq_of_ofDouble_nan {x : Float} (h : ofDouble x = .nan) : x = Datum.nan.toDouble := by
  apply eq_of_toBits_double
  have hUnpack : UnpackedFloat.unpack Format.binary64 x.toBits.toBitVec = .notANumber := by
    rw [ofDouble_eq] at h
    cases hCase : x.toModel.unpack with
    | notANumber => exact hCase
    | _ =>
        rw [hCase] at h
        cases h
  have hField : @unpackExponent Format.binary64 x.toBits.toBitVec = -1#_ := by
    refine Decidable.byContradiction fun hOther => ?_
    have hFinite := Pattern.isFinite_unpack_iff.mpr hOther
    rw [hUnpack] at hFinite
    cases hFinite
  rw [Pattern.unpack_last hField] at hUnpack
  split at hUnpack
  · cases hUnpack
  · rename_i hMantissa
    exact congrArg UInt64.ofBitVec (x.toModel.valid.eq_packedNaN hField hMantissa)

/-- There is one negative zero. -/
theorem eq_of_ofDouble_zero {x : Float} {e : Int} (h : ofDouble x = .finite true 0 e) :
    x = (zero true).toDouble := by
  apply eq_of_toBits_double
  have hUnpack : UnpackedFloat.unpack Format.binary64 x.toBits.toBitVec = .zero .negative := by
    rw [ofDouble_eq] at h
    cases hCase : x.toModel.unpack with
    | zero s =>
        rw [hCase] at h
        cases s with
        | negative => exact hCase
        | positive => cases h
    | finite s m q hPos =>
        rw [hCase] at h
        obtain ⟨-, hNone, -⟩ := Datum.finite.inj h
        omega
    | _ =>
        rw [hCase] at h
        cases h
  have hField : @unpackExponent Format.binary64 x.toBits.toBitVec ≠ -1#_ :=
    Pattern.isFinite_unpack_iff.mp (by rw [hUnpack]; rfl)
  have hBits := Pattern.pack_unpack (by decide) hField
  rw [hUnpack] at hBits
  exact (congrArg UInt64.ofBitVec hBits).symm

end Datum

section Naturals

variable {n : Nat}

/-- A natural number of up to 53 bits, moved up until it fills the significand. -/
theorem scaled_bounds (hPos : 0 < n) (hLess : n < 9007199254740992) :
    4503599627370496 ≤ n * twoPow (52 - n.log2) ∧ n * twoPow (52 - n.log2) < 9007199254740992 := by
  have hLog : n.log2 < 53 := (Nat.log2_lt (by omega)).mpr hLess
  obtain ⟨hLow, hHigh⟩ := (Nat.log2_eq_iff (by omega)).mp (rfl : n.log2 = n.log2)
  have hSplit : ∀ k, k < 53 → Nat.pow 2 k * twoPow (52 - k) = 4503599627370496 := by decide
  have hWhole := hSplit n.log2 hLog
  constructor
  · calc 4503599627370496 = Nat.pow 2 n.log2 * twoPow (52 - n.log2) := hWhole.symm
      _ ≤ n * twoPow (52 - n.log2) := Nat.mul_le_mul_right _ hLow
  · calc n * twoPow (52 - n.log2) < Nat.pow 2 n.log2 * 2 * twoPow (52 - n.log2) :=
          Nat.mul_lt_mul_of_pos_right hHigh (Nat.two_pow_pos _)
      _ = 2 * (Nat.pow 2 n.log2 * twoPow (52 - n.log2)) := by rw [Nat.mul_comm _ 2, Nat.mul_assoc]
      _ = 9007199254740992 := by rw [hWhole]

theorem floorLog2_one (hPos : 0 < n) : floorLog2 n 1 = n.log2 := by
  have hLow : Nat.pow 2 n.log2 ≤ n := Nat.log2_self_le (by omega)
  have hTest : 1 * twoPow ((n.log2 : Int) - (0 : Nat)).toNat ≤
      n * twoPow (-((n.log2 : Int) - (0 : Nat))).toNat := by
    rw [show ((n.log2 : Int) - (0 : Nat)).toNat = n.log2 by omega,
      show (-((n.log2 : Int) - (0 : Nat))).toNat = 0 by omega, Nat.one_mul]
    exact Nat.le_trans hLow (Nat.le_mul_of_pos_right _ (by decide))
  rw [floorLog2, show Nat.log2 1 = 0 by decide]
  simp only [if_pos hTest]
  omega

/-- No rounding is needed for a natural number of up to 53 bits. -/
theorem nearest_natural (hPos : 0 < n) (hLess : n < 9007199254740992) :
    BinaryFormat.double.nearest n 1 =
      (1074 - (52 - n.log2)) * 4503599627370496 + n * twoPow (52 - n.log2) := by
  obtain ⟨hLow, hHigh⟩ := scaled_bounds hPos hLess
  have hLog : n.log2 < 53 := (Nat.log2_lt (by omega)).mpr hLess
  have hExponent : max (floorLog2 n 1 - (BinaryFormat.double.fractionBits : Int))
      BinaryFormat.double.leastExponent = -((52 - n.log2 : Nat) : Int) := by
    rw [floorLog2_one hPos, BinaryFormat.double_leastExponent,
      show BinaryFormat.double.fractionBits = 52 from rfl]
    omega
  have hRound : ∀ m, roundHalfEven m 1 = m := by
    intro m
    simp [roundHalfEven, Nat.mod_one]
  rw [BinaryFormat.nearest, if_neg (by omega)]
  simp only [hExponent]
  rw [BinaryFormat.double_leastExponent, BinaryFormat.double_infinityBits,
    BinaryFormat.double_fraction,
    show (- -((52 - n.log2 : Nat) : Int)).toNat = 52 - n.log2 by omega,
    show (-((52 - n.log2 : Nat) : Int)).toNat = 0 by omega,
    show (-((52 - n.log2 : Nat) : Int) - -1074).toNat = 1074 - (52 - n.log2) by omega,
    show 1 * twoPow 0 = 1 from rfl, hRound]
  omega

/-- The pattern of a natural number of up to 53 bits: the number is shifted until its first bit is
the implicit one. -/
theorem encode_ofInt (hPos : 0 < n) (hLess : n < 9007199254740992) :
    BinaryFormat.double.encode (.ofInt n) =
      (1074 - (52 - n.log2)) * 4503599627370496 + n * twoPow (52 - n.log2) := by
  have hSign : decide ((n : Int) < 0) = false := decide_eq_false (by omega)
  rw [Datum.ofInt, hSign, BinaryFormat.encode, BinaryFormat.signed, Int.natAbs_natCast,
    if_neg (by decide), ← nearest_natural hPos hLess]
  show BinaryFormat.double.nearest (n * 1) 1 = _
  rw [Nat.mul_one]

/-- How a pattern with a positive sign and a full significand is read. -/
theorem decode_full {field fraction : Nat} (hField : field < 2046)
    (hFraction : fraction < 4503599627370496) :
    BinaryFormat.double.decode ((field + 1) * 4503599627370496 + fraction) =
      .finite false (4503599627370496 + fraction) (-1074 + (field : Int)) := by
  have hBits : (field + 1) * 4503599627370496 + fraction < 9218868437227405312 := by omega
  have hMagnitude : ((field + 1) * 4503599627370496 + fraction) % 9223372036854775808 =
      (field + 1) * 4503599627370496 + fraction := Nat.mod_eq_of_lt (by omega)
  have hQuotient :
      ((field + 1) * 4503599627370496 + fraction) / 4503599627370496 = field + 1 := by omega
  have hRemainder :
      ((field + 1) * 4503599627370496 + fraction) % 4503599627370496 = fraction := by omega
  unfold BinaryFormat.decode
  rw [BinaryFormat.double_signBit, BinaryFormat.double_infinityBits, BinaryFormat.double_fraction,
    BinaryFormat.double_leastExponent]
  simp only [hMagnitude, hQuotient, hRemainder]
  rw [if_neg (Nat.lt_asymm hBits), if_neg (Nat.ne_of_lt hBits), if_neg (Nat.succ_ne_zero field),
    decide_eq_false (by omega), Nat.add_sub_cancel]

/-- A natural number of up to 53 bits is a double: its significand, moved up, and how far. -/
theorem ofDouble_toDouble_ofInt (hPos : 0 < n) (hLess : n < 9007199254740992) :
    Datum.ofDouble (Datum.ofInt n).toDouble =
      .finite false (n * twoPow (52 - n.log2)) (-((52 - n.log2 : Nat) : Int)) := by
  obtain ⟨hLow, hHigh⟩ := scaled_bounds hPos hLess
  rw [Datum.toDouble, encode_ofInt hPos hLess]
  generalize n * twoPow (52 - n.log2) = scaled at *
  obtain ⟨fraction, rfl⟩ := Nat.exists_eq_add_of_le hLow
  obtain ⟨field, hField⟩ : ∃ field : Nat, (field : Int) = 1074 - (52 - n.log2 : Nat) :=
    ⟨1074 - (52 - n.log2), by omega⟩
  have hBits : (1074 - (52 - n.log2)) * 4503599627370496 + (4503599627370496 + fraction) =
      (field + 1) * 4503599627370496 + fraction := by
    rw [show 1074 - (52 - n.log2) = field by omega, Nat.succ_mul, Nat.add_assoc]
  have hFraction : fraction < 4503599627370496 := by omega
  have hMost : field < 2046 := by omega
  rw [hBits, Datum.ofDouble_ofBits, decode_full hMost hFraction]
  · rw [hField]
    congr 1
    omega
  · rw [BinaryFormat.double_signBit]
    omega
  · rw [BinaryFormat.double_signBit, BinaryFormat.double_infinityBits]
    omega

end Naturals

namespace Pattern

/-- A number with a positive sign that is neither infinite nor missing. -/
def IsPlain : UnpackedFloat → Prop
  | .zero .positive => True
  | .finite .positive _ _ _ => True
  | _ => False

/-- Among such numbers, those that compare equal are the same. -/
theorem beq_iff_eq {x y : UnpackedFloat} (hx : IsPlain x) (hy : IsPlain y) :
    x.beq y = true ↔ x = y := by
  rw [beq_iff]
  refine ⟨?_, fun hEq => .inl ⟨hEq, ?_⟩⟩
  · rintro (⟨hEq, -⟩ | ⟨⟨s, rfl⟩, t, rfl⟩)
    · exact hEq
    · cases s with
      | negative => exact hx.elim
      | positive =>
          cases t with
          | negative => exact hy.elim
          | positive => rfl
  · rintro rfl
    exact hx.elim

/-- A pattern below that of infinity is unpacked to a number that is zero or positive. -/
theorem isPlain_unpack {bits : Nat} (hFinite : bits < BinaryFormat.double.infinityBits) :
    IsPlain (UnpackedFloat.unpack Format.binary64 (UInt64.ofNat bits).toBitVec) := by
  rw [BinaryFormat.double_infinityBits] at hFinite
  have hSign : @unpackSign Format.binary64 (UInt64.ofNat bits).toBitVec = 0#1 := by
    rw [unpackSign_eq_zero_iff, toNat_ofNat (by omega)]
    show bits < 9223372036854775808
    omega
  have hField : @unpackExponent Format.binary64 (UInt64.ofNat bits).toBitVec ≠ -1#_ :=
    unpackExponent_ne (by rw [BinaryFormat.double_signBit]; omega)
      (by rw [BinaryFormat.double_signBit, BinaryFormat.double_infinityBits]; omega)
  by_cases hZero : @unpackExponent Format.binary64 (UInt64.ofNat bits).toBitVec = 0#_
  · by_cases hNone : @unpackMantissa Format.binary64 (UInt64.ofNat bits).toBitVec = 0#_
    · rw [unpack_zero hField hZero hNone, hSign]
      trivial
    · rw [unpack_subnormal hField hZero hNone, hSign]
      trivial
  · rw [unpack_normal hField hZero, hSign]
    trivial

/-- A double that is made of a finite pattern is unpacked as the pattern is. -/
theorem unpack_ofBits {bits : Nat} (hFinite : bits < BinaryFormat.double.infinityBits) :
    (Float.ofBits (UInt64.ofNat bits)).toModel.unpack =
      UnpackedFloat.unpack Format.binary64 (UInt64.ofNat bits).toBitVec := by
  rw [BinaryFormat.double_infinityBits] at hFinite
  have hStored : (Float.ofBits (UInt64.ofNat bits)).toBits = UInt64.ofNat bits :=
    toBits_ofBits (by rw [BinaryFormat.double_signBit]; omega)
      (by rw [BinaryFormat.double_signBit, BinaryFormat.double_infinityBits]; omega)
  exact congrArg (fun b : UInt64 => UnpackedFloat.unpack Format.binary64 b.toBitVec) hStored

/-- Doubles of finite patterns without a sign are equal as numbers only if they are the same. -/
theorem beq_ofBits {bits others : Nat} (hBits : bits < BinaryFormat.double.infinityBits)
    (hOthers : others < BinaryFormat.double.infinityBits) :
    (Float.ofBits (UInt64.ofNat bits) == Float.ofBits (UInt64.ofNat others)) = true ↔
      Float.ofBits (UInt64.ofNat bits) = Float.ofBits (UInt64.ofNat others) := by
  show (Float.ofBits (UInt64.ofNat bits)).toModel.unpack.beq
    (Float.ofBits (UInt64.ofNat others)).toModel.unpack = true ↔ _
  rw [unpack_ofBits hBits, unpack_ofBits hOthers,
    beq_iff_eq (isPlain_unpack hBits) (isPlain_unpack hOthers)]
  refine ⟨fun hEq => ?_, fun hEq => ?_⟩
  · exact congrArg (fun x => Float.ofModel (Float.Model.pack x)) hEq
  · rw [← unpack_ofBits hBits, ← unpack_ofBits hOthers, hEq]

/-- A number with a positive sign does not compare equal to one with a negative sign. -/
theorem beq_negative {bits : Nat} (hFinite : bits < BinaryFormat.double.infinityBits) {y : Float}
    {m : Nat} {e : Int} {hm : 0 < m} (hy : y.toModel.unpack = .finite .negative m e hm) :
    (Float.ofBits (UInt64.ofNat bits) == y) = false := by
  show (Float.ofBits (UInt64.ofNat bits)).toModel.unpack.beq y.toModel.unpack = false
  rw [unpack_ofBits hFinite, hy]
  match UnpackedFloat.unpack Format.binary64 (UInt64.ofNat bits).toBitVec,
    isPlain_unpack hFinite with
  | .zero .positive, _ => rfl
  | .finite .positive _ _ _, _ => rfl

end Pattern

namespace LiteralTable

/-- The code of a string is written as a number with a positive sign. -/
theorem encode_code_lt (code : UInt32) :
    BinaryFormat.double.encode (.ofInt code.toNat) < BinaryFormat.double.infinityBits := by
  have hLess : code.toNat < 4294967296 := code.toNat_lt
  by_cases hZero : code.toNat = 0
  · rw [hZero]
    decide
  · obtain ⟨_, hHigh⟩ := scaled_bounds (n := code.toNat) (by omega) (by omega)
    rw [encode_ofInt (by omega) (by omega), BinaryFormat.double_infinityBits]
    omega

/-- Every code of a string is a finite number. -/
theorem isFinite_codeNumber (code : UInt32) :
    (Datum.ofDouble (codeNumber code)).isFinite = true := by
  have hLess : code.toNat < 4294967296 := code.toNat_lt
  by_cases hZero : code.toNat = 0
  · rw [codeNumber, hZero]
    decide
  · rw [codeNumber, ofDouble_toDouble_ofInt (by omega) (by omega), Datum.isFinite]

/-- Different codes are different numbers. -/
theorem codeNumber_inj {code other : UInt32} :
    codeNumber code = codeNumber other ↔ code = other := by
  refine ⟨fun hEq => ?_, fun hEq => hEq ▸ rfl⟩
  have hLess : code.toNat < 4294967296 := code.toNat_lt
  have hLess' : other.toNat < 4294967296 := other.toNat_lt
  have hDatum := congrArg Datum.ofDouble hEq
  have hNone : Datum.ofDouble (Datum.ofInt (0 : Nat)).toDouble = .finite false 0 (-1074) := by
    decide
  rw [codeNumber, codeNumber] at hDatum
  apply UInt32.toNat_inj.mp
  by_cases hZero : code.toNat = 0 <;> by_cases hZero' : other.toNat = 0
  · rw [hZero, hZero']
  · obtain ⟨hLow, _⟩ := scaled_bounds (n := other.toNat) (by omega) (by omega)
    rw [hZero, hNone, ofDouble_toDouble_ofInt (by omega) (by omega)] at hDatum
    simp only [Datum.finite.injEq, true_and] at hDatum
    omega
  · obtain ⟨hLow, _⟩ := scaled_bounds (n := code.toNat) (by omega) (by omega)
    rw [hZero', hNone, ofDouble_toDouble_ofInt (by omega) (by omega)] at hDatum
    simp only [Datum.finite.injEq, true_and] at hDatum
    omega
  · rw [ofDouble_toDouble_ofInt (by omega) (by omega),
      ofDouble_toDouble_ofInt (by omega) (by omega)] at hDatum
    simp only [Datum.finite.injEq, true_and] at hDatum
    obtain ⟨hScaled, hExponent⟩ := hDatum
    rw [show 52 - code.toNat.log2 = 52 - other.toNat.log2 by omega] at hScaled
    exact Nat.eq_of_mul_eq_mul_right (Nat.two_pow_pos _) hScaled

/-- Codes compare equal as numbers exactly when they are the same. -/
theorem codeNumber_beq {code other : UInt32} :
    (codeNumber code == codeNumber other) = true ↔ code = other := by
  rw [← codeNumber_inj]
  exact Pattern.beq_ofBits (encode_code_lt code) (encode_code_lt other)

/-- No code of a string is equal to a negative number. -/
theorem codeNumber_beq_negative (code : UInt32) {y : Float} {m : Nat} {e : Int} {hm : 0 < m}
    (hy : y.toModel.unpack = .finite .negative m e hm) : (codeNumber code == y) = false :=
  Pattern.beq_negative (encode_code_lt code) hy

end LiteralTable

end PointStyle
