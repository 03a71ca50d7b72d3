import PointStyle.Proofs.Binary.Nearest
import PointStyle.Proofs.Double

/-! Singles and the patterns they are stored as. A finite single is the number it is read as, and it
is a double too: widened and narrowed again it is the same. Which numbers are narrowed to singles
from zero to one, and which singles are equal, can be read off the patterns. -/
namespace PointStyle

open Float.Model Float.Model.UnpackedFloat

namespace BinaryFormat

theorem single_signBit : single.signBit = 2147483648 := by decide

theorem single_leastExponent : single.leastExponent = -149 := by decide

theorem single_fraction : twoPow single.fractionBits = 8388608 := by decide

theorem single_infinityBits : single.infinityBits = 2139095040 := by decide

variable {m : Nat} {q : Int}

/-- Doubles of steps that are not too long are finite. -/
theorem double_pattern_lt {e : Int} {steps : Nat} (hExponent : e ≤ 900)
    (hSteps : steps ≤ 2 * twoPow double.fractionBits) :
    double.pattern steps e < double.infinityBits := by
  have hField : (e - -1074).toNat ≤ 1974 := by omega
  rw [double_fraction] at hSteps
  rw [pattern, double_leastExponent, double_infinityBits, double_fraction]
  generalize (e - -1074).toNat = field at *
  clear hExponent
  omega

/-- The upper end of the interval of a single, in quarters of its last place. -/
theorem Has.quarters_lt (h : single.Has m q) : 4 * (m : ℚ) + 2 < 2 ^ (26 : Int) := by
  have hBound := h.bound
  rw [single_fraction] at hBound
  have hNat : 4 * m + 2 < 67108864 := by omega
  have hCast : 4 * (m : ℚ) + 2 < 67108864 := by exact_mod_cast hNat
  norm_num
  exact hCast

/-- The step of the doubles next to a single is finer by 29 powers of two. -/
theorem Has.steps_le (h : single.Has m q) {e : Int} {r : ℚ} (hSteps : double.Steps r e)
    (hHigh : r / 2 ^ (q - 2) ≤ 4 * m + 2) : e ≤ q - 29 := by
  have hLeast := h.least
  rw [single_leastExponent] at hLeast
  rcases hSteps.least.eq_or_lt with hEq | hLess
  · rw [double_leastExponent] at hEq
    omega
  · have hTop := h.quarters_lt
    rw [div_le_iff₀ (by positivity)] at hHigh
    have hMost : r < 2 ^ (26 + (q - 2)) := by
      calc r ≤ (4 * m + 2) * 2 ^ (q - 2) := hHigh
        _ < 2 ^ (26 : Int) * 2 ^ (q - 2) := by gcongr
        _ = 2 ^ (26 + (q - 2)) := (zpow_add₀ two_ne_zero _ _).symm
    have hExponent := hSteps.exponent_lt hMost hLess
    have hBits : double.fractionBits = 52 := rfl
    omega

/-- The exponents of finite singles are at most 105. -/
theorem Has.exponent_le (h : single.Has m q) : q ≤ 105 := by
  have hFinite := h.finite
  rw [pattern, single_leastExponent, single_fraction, single_infinityBits] at hFinite
  omega

/-- Doubles of such steps are finite. -/
theorem Has.pattern_lt (h : single.Has m q) {e : Int} {steps : Nat} (hFine : e ≤ q - 29)
    (hSteps : steps ≤ 2 * twoPow double.fractionBits) :
    double.pattern steps e < double.infinityBits := by
  have hExponent := h.exponent_le
  exact double_pattern_lt (by omega) hSteps

end BinaryFormat

namespace Datum

variable {x y : Float32} {negative : Bool} {m : Nat} {q : Int}

/-- A single is read as it is unpacked. -/
theorem ofSingle_eq (x : Float32) : ofSingle x = ofUnpacked (-149) x.toModel.unpack :=
  BinaryFormat.single_leastExponent ▸ @BinaryFormat.decode_ofSpec Format.binary32 x.toBits.toBitVec

theorem isFinite_ofSingle (x : Float32) : (ofSingle x).isFinite = x.isFinite := by
  rw [ofSingle_eq]
  exact isFinite_ofUnpacked ..

/-- A finite single has a sign, a significand and an exponent. -/
theorem exists_of_isFinite (h : x.isFinite = true) :
    ∃ negative m q, ofSingle x = .finite negative m q := by
  rw [← isFinite_ofSingle] at h
  cases hDatum : ofSingle x with
  | nan => simp [hDatum, isFinite] at h
  | infinite negative => simp [hDatum, isFinite] at h
  | finite negative m q => exact ⟨negative, m, q, rfl⟩

/-- A finite single is stored as the pattern of the number that it is read as. -/
theorem toBits_of_ofSingle (h : ofSingle x = .finite negative m q) :
    BinaryFormat.single.Has m q ∧
      x.toBits.toNat = BinaryFormat.single.signed negative (BinaryFormat.single.pattern m q) := by
  have hBits : x.toBits.toNat < 2 * BinaryFormat.single.signBit := by
    have hLess : x.toBits.toNat < 4294967296 := x.toBits.toNat_lt
    rw [BinaryFormat.single_signBit]
    omega
  exact BinaryFormat.has_of_decode hBits h

/-- A single is known by its pattern. -/
theorem eq_of_toBits (h : x.toBits = y.toBits) : x = y := by
  obtain ⟨⟨bits, _⟩⟩ := x
  obtain ⟨⟨others, _⟩⟩ := y
  obtain rfl : bits = others := h
  rfl

/-- A datum is narrowed to the single whose pattern it has. -/
theorem toSingle_eq {d : Datum} (hFinite : x.isFinite = true)
    (h : BinaryFormat.single.encode d = x.toBits.toNat) : d.toSingle = x := by
  apply eq_of_toBits
  rw [toSingle, h, UInt32.ofNat_toNat]
  have hField : @unpackExponent Format.binary32 x.toBits.toBitVec ≠ -1#_ :=
    Pattern.isFinite_unpack_iff.mp hFinite
  exact congrArg UInt32.ofBitVec (Pattern.pack_unpack (by decide) hField)

/-- A finite pattern that was rounded to is read back as it was written. -/
theorem ofDouble_of_decode {num den : Nat}
    (h : BinaryFormat.double.decode
      (BinaryFormat.double.signed negative (BinaryFormat.double.nearest num den)) =
        .finite negative m q) :
    ofDouble (Float.ofBits (UInt64.ofNat
      (BinaryFormat.double.signed negative (BinaryFormat.double.nearest num den)))) =
        .finite negative m q := by
  have hSign := BinaryFormat.double.infinityBits_lt_signBit
  have hMost := BinaryFormat.double.nearest_le num den
  have hBits : BinaryFormat.double.signed negative (BinaryFormat.double.nearest num den) <
      2 * BinaryFormat.double.signBit := by
    unfold BinaryFormat.signed
    split <;> omega
  obtain ⟨hHas, hPattern⟩ := BinaryFormat.has_of_decode hBits h
  rw [ofDouble_ofBits hBits, h]
  rw [hPattern, BinaryFormat.signed_mod (Nat.lt_trans hHas.finite hSign)]
  exact hHas.finite

/-- A number far below the largest double is rounded to a finite one. -/
theorem isFinite_nearest {num den : Nat} (hDen : 0 < den) (h : (num : ℚ) / den ≤ 2 ^ (900 : Int)) :
    (ofDouble (Float.ofBits (UInt64.ofNat
      (BinaryFormat.double.signed negative (BinaryFormat.double.nearest num den))))).isFinite := by
  rcases Nat.eq_zero_or_pos num with rfl | hNum
  · rw [BinaryFormat.nearest, if_pos rfl]
    cases negative <;> decide
  obtain ⟨e, hSteps⟩ := BinaryFormat.double.exists_steps hNum hDen
  have hExponent : e ≤ 900 := by
    rcases hSteps.least.eq_or_lt with hEq | hLess
    · rw [BinaryFormat.double_leastExponent] at hEq
      omega
    · have hPower : (2 : ℚ) ^ (900 : Int) < 2 ^ (901 : Int) :=
        zpow_lt_zpow_right₀ one_lt_two (by decide)
      have hBelow := hSteps.exponent_lt (h.trans_lt hPower) hLess
      omega
  have hRound : roundHalfEven (num * twoPow (-e).toNat) (den * twoPow e.toNat) ≤
      2 * twoPow BinaryFormat.double.fractionBits := by
    apply roundHalfEven_le (Nat.mul_pos hDen (twoPow_pos _))
    rw [cast_scaled]
    exact_mod_cast hSteps.below.le
  obtain ⟨m', q', hDecode, -⟩ := BinaryFormat.decode_nearest hNum hDen hSteps
    (BinaryFormat.double_pattern_lt hExponent hRound)
  rw [ofDouble_of_decode hDecode, isFinite]

/-- A single is a double: widened, it is read as a number of the same value. -/
theorem ofDouble_toDouble_single (h : BinaryFormat.single.Has m q) (hPos : 0 < m) :
    ∃ m' q', ofDouble (Datum.finite negative m q).toDouble = .finite negative m' q' ∧
      (m' : ℚ) * 2 ^ q' = m * 2 ^ q := by
  have hNum : 0 < m * twoPow q.toNat := Nat.mul_pos hPos (twoPow_pos _)
  have hDen := twoPow_pos (-q).toNat
  obtain ⟨e, hSteps⟩ := BinaryFormat.double.exists_steps hNum hDen
  have hFine : e ≤ q - 29 := by
    refine h.steps_le hSteps ?_
    rw [cast_binary, mul_div_assoc, ← zpow_sub₀ two_ne_zero, sub_sub_cancel]
    norm_num
    linarith
  obtain ⟨g, hg⟩ : ∃ g : Nat, (g : Int) = q - e := ⟨(q - e).toNat, by omega⟩
  -- In steps of the doubles the number is whole, so nothing is rounded.
  have hWhole : ((m * twoPow q.toNat : Nat) : ℚ) / (twoPow (-q).toNat : Nat) / 2 ^ e =
      (m * twoPow g : Nat) := by
    rw [cast_binary, Nat.cast_mul, cast_twoPow, mul_div_assoc, ← zpow_sub₀ two_ne_zero,
      ← hg, zpow_natCast]
  have hRound : roundHalfEven (m * twoPow q.toNat * twoPow (-e).toNat)
      (twoPow (-q).toNat * twoPow e.toNat) = m * twoPow g := by
    apply roundHalfEven_eq (Nat.mul_pos hDen (twoPow_pos _)) <;>
      rw [cast_scaled, hWhole, sub_self, abs_zero] <;> norm_num
  have hBelow : m * twoPow g < 2 * twoPow BinaryFormat.double.fractionBits := by
    have hLess := hSteps.below
    rw [hWhole] at hLess
    exact_mod_cast hLess
  have hPattern := h.pattern_lt hFine hBelow.le
  rw [← hRound] at hPattern
  obtain ⟨m', q', hDecode, hValue⟩ := BinaryFormat.decode_nearest hNum hDen hSteps hPattern
  refine ⟨m', q', ofDouble_of_decode hDecode, ?_⟩
  rw [hValue, hRound, ← hWhole, div_mul_cancel₀ _ (by positivity), cast_binary]

/-- The pattern of a zero. -/
theorem toBits_of_zero (h : ofSingle x = .finite negative 0 q) :
    x.toBits.toNat = BinaryFormat.single.signed negative 0 := by
  obtain ⟨hHas, hBits⟩ := toBits_of_ofSingle h
  have hLeast : BinaryFormat.single.leastExponent = q := by
    by_contra hNe
    have hFull := hHas.full (lt_of_le_of_ne hHas.least hNe)
    rw [BinaryFormat.single_fraction] at hFull
    omega
  rw [hBits, BinaryFormat.pattern, ← hLeast, Int.sub_self, Int.toNat_zero, Nat.zero_mul]

/-- A finite single that is widened is finite, and narrowed again it is the same. -/
theorem widen_single (h : x.isFinite = true) :
    ∃ negative m q, ofDouble (ofSingle x).toDouble = .finite negative m q ∧
      (Datum.finite negative m q).toSingle = x := by
  obtain ⟨negative, m, q, hDatum⟩ := exists_of_isFinite h
  rw [hDatum]
  rcases Nat.eq_zero_or_pos m with rfl | hPos
  · refine ⟨negative, 0, -1074, ?_, toSingle_eq h ?_⟩
    · rw [toDouble, BinaryFormat.encode_zero]
      cases negative <;> decide
    · rw [BinaryFormat.encode_zero, toBits_of_zero hDatum]
  · obtain ⟨hHas, hBits⟩ := toBits_of_ofSingle hDatum
    obtain ⟨m', q', hWide, hValue⟩ := ofDouble_toDouble_single hHas hPos
    refine ⟨negative, m', q', hWide, toSingle_eq h ?_⟩
    rw [hBits, BinaryFormat.encode_eq_pattern hHas hPos (by decide) hValue]

theorem unpack_zero : (0 : Float32).toModel.unpack = .zero .positive := by rfl

theorem unpack_one :
    (1 : Float32).toModel.unpack = .finite .positive 8388608 (-23) (by decide) := by
  rfl

/-- Which positive singles one is above: the exponents decide first. -/
theorem positive_le_one_iff {m : Nat} {q : Int} {hPos : 0 < m} :
    UnpackedFloat.le (.finite .positive m q hPos) (1 : Float32).toModel.unpack = true ↔
      q < -23 ∨ q = -23 ∧ m ≤ 8388608 := by
  rw [unpack_one]
  show ((compare q (-23)).then (compare m 8388608)).isLE = true ↔ _
  rw [Ordering.isLE_then_iff_or, compare_lt_iff_lt, compare_eq_iff_eq, Nat.isLE_compare]

/-- The singles from zero to one: the zeros, one, and the positive ones below. -/
theorem unit_cases (hLow : 0 ≤ x) (hHigh : x ≤ 1) :
    (∃ negative, ofSingle x = .finite negative 0 (-149)) ∨ x = 1 ∨
      ∃ m q, ofSingle x = .finite false m q ∧ 0 < m ∧ q ≤ -24 := by
  have hAbove : (0 : Float32).toModel.unpack.le x.toModel.unpack = true := of_decide_eq_true hLow
  have hBelow : x.toModel.unpack.le (1 : Float32).toModel.unpack = true := of_decide_eq_true hHigh
  rw [unpack_zero] at hAbove
  have hDatum := ofSingle_eq x
  cases hUnpack : x.toModel.unpack with
  | notANumber =>
      rw [hUnpack] at hAbove
      cases hAbove
  | infinity s =>
      rw [hUnpack] at hAbove hBelow
      cases s with
      | negative => cases hAbove
      | positive =>
          rw [unpack_one] at hBelow
          cases hBelow
  | zero s =>
      rw [hUnpack] at hDatum
      exact .inl ⟨_, hDatum⟩
  | finite s m q hPos =>
      rw [hUnpack] at hDatum hAbove hBelow
      cases s with
      | negative => cases hAbove
      | positive =>
          right
          rcases positive_le_one_iff.mp hBelow with hLess | ⟨rfl, hMost⟩
          · exact .inr ⟨m, q, hDatum, hPos, by omega⟩
          · -- At this exponent the significand is full, so the number is one.
            left
            obtain ⟨hHas, hBits⟩ := toBits_of_ofSingle hDatum
            have hFull := hHas.full (by decide)
            rw [BinaryFormat.single_fraction] at hFull
            obtain rfl : m = 8388608 := by omega
            apply eq_of_toBits
            apply UInt32.toNat_inj.mp
            rw [hBits]
            decide

/-- A pattern up to that of infinity is stored as it is. -/
theorem toBits_signed {magnitude : Nat} (h : magnitude ≤ BinaryFormat.single.infinityBits) :
    (Float32.ofBits (UInt32.ofNat (BinaryFormat.single.signed negative magnitude))).toBits.toNat =
      BinaryFormat.single.signed negative magnitude := by
  rcases h.eq_or_lt with rfl | hFinite
  · cases negative <;> decide
  have hMod := @BinaryFormat.signed_mod .single negative _
    (hFinite.trans BinaryFormat.single.infinityBits_lt_signBit)
  have hBits : BinaryFormat.single.signed negative magnitude < 4294967296 := by
    rw [BinaryFormat.single_infinityBits] at hFinite
    rw [BinaryFormat.signed, BinaryFormat.single_signBit]
    split <;> omega
  generalize BinaryFormat.single.signed negative magnitude = bits at *
  have hToNat : (UInt32.ofNat bits).toBitVec.toNat = bits := UInt32.toNat_ofNat_of_lt' hBits
  have hField : @unpackExponent Format.binary32 (UInt32.ofNat bits).toBitVec ≠ -1#_ := by
    refine (@BinaryFormat.magnitude_lt_iff Format.binary32 _).mp ?_
    rw [hToNat]
    exact hMod.trans_lt hFinite
  have hStored : (Float32.ofBits (UInt32.ofNat bits)).toBits = UInt32.ofNat bits :=
    congrArg UInt32.ofBitVec (Pattern.pack_unpack (by decide) hField)
  rw [hStored]
  exact hToNat

/-- A datum is narrowed to the pattern nearest to it. -/
theorem toBits_toSingle (d : Datum) : d.toSingle.toBits.toNat = BinaryFormat.single.encode d := by
  cases d with
  | nan => decide
  | infinite negative => exact toBits_signed (le_refl _)
  | finite negative m q => exact toBits_signed (BinaryFormat.single.nearest_le ..)

/-- A pattern below that of infinity, apart from its sign, is finite. -/
theorem isFinite_of_toBits
    (h : x.toBits.toNat % BinaryFormat.single.signBit < BinaryFormat.single.infinityBits) :
    (ofSingle x).isFinite := by
  unfold ofSingle BinaryFormat.decode
  simp only
  rw [if_neg (by omega), if_neg (by omega)]
  split <;> rfl

/-- The pattern of one. -/
def oneBits : Nat :=
  1065353216

theorem isFinite_of_toBits_le_one
    (h : x.toBits.toNat ≤ oneBits ∨ x.toBits.toNat = BinaryFormat.single.signBit) :
    (ofSingle x).isFinite := by
  apply isFinite_of_toBits
  rw [BinaryFormat.single_signBit, oneBits] at h
  rw [BinaryFormat.single_signBit, BinaryFormat.single_infinityBits]
  omega

/-- The patterns of positive singles are ordered as the singles are. -/
theorem pattern_le_oneBits_iff {m : Nat} {q : Int} (h : BinaryFormat.single.Has m q) :
    BinaryFormat.single.pattern m q ≤ oneBits ↔ q < -23 ∨ q = -23 ∧ m ≤ 8388608 := by
  have hLeast := h.least
  have hBound := h.bound
  have hFull := h.full
  rw [BinaryFormat.single_leastExponent] at hLeast hFull
  rw [BinaryFormat.single_fraction] at hBound hFull
  rw [BinaryFormat.pattern, BinaryFormat.single_leastExponent,
    BinaryFormat.single_fraction, oneBits]
  omega

/-- A pattern up to that of one, or of the negative zero, is a single between zero and one. -/
theorem unit_of_toBits
    (h : x.toBits.toNat ≤ oneBits ∨ x.toBits.toNat = BinaryFormat.single.signBit) :
    0 ≤ x ∧ x ≤ 1 := by
  have hFinite := isFinite_of_toBits_le_one h
  suffices hLE : (0 : Float32).toModel.unpack.le x.toModel.unpack = true ∧
      x.toModel.unpack.le (1 : Float32).toModel.unpack = true from
    ⟨decide_eq_true hLE.1, decide_eq_true hLE.2⟩
  have hDatum := ofSingle_eq x
  rw [unpack_zero]
  cases hUnpack : x.toModel.unpack with
  | notANumber =>
      rw [hDatum, hUnpack] at hFinite
      cases hFinite
  | infinity s =>
      rw [hDatum, hUnpack] at hFinite
      cases hFinite
  | zero s =>
      rw [unpack_one]
      exact ⟨rfl, rfl⟩
  | finite s m q hPos =>
      rw [hUnpack] at hDatum
      obtain ⟨hHas, hPattern⟩ := toBits_of_ofSingle hDatum
      rw [hPattern, BinaryFormat.single_signBit] at h
      cases s with
      | negative =>
          -- The pattern of a negative number is above that of the negative zero.
          rw [BinaryFormat.signed, if_pos (by decide), BinaryFormat.single_signBit,
            BinaryFormat.pattern, oneBits] at h
          omega
      | positive =>
          have hMost := hHas.finite
          rw [BinaryFormat.single_infinityBits] at hMost
          rw [BinaryFormat.signed, if_neg (by decide)] at h
          exact ⟨rfl, positive_le_one_iff.mpr ((pattern_le_oneBits_iff hHas).mp (by omega))⟩

/-- The singles from zero to one are those whose patterns go up to the pattern of one, and the
negative zero. -/
theorem unit_iff_toBits : 0 ≤ x ∧ x ≤ 1 ↔
    x.toBits.toNat ≤ oneBits ∨ x.toBits.toNat = BinaryFormat.single.signBit := by
  refine ⟨fun hUnit => ?_, unit_of_toBits⟩
  rcases unit_cases hUnit.1 hUnit.2 with ⟨negative, hZero⟩ | rfl | ⟨m, q, hDatum, hPos, hMost⟩
  · rw [toBits_of_zero hZero]
    cases negative <;> decide
  · decide
  · left
    obtain ⟨hHas, hBits⟩ := toBits_of_ofSingle hDatum
    rw [hBits, BinaryFormat.signed, if_neg (by decide)]
    exact (pattern_le_oneBits_iff hHas).mpr (.inl (by omega))

/-- The number that a finite datum stands for. -/
def value? : Datum → Option ℚ
  | .finite negative m e => some (if negative then -(m * 2 ^ e) else m * 2 ^ e)
  | _ => none

/-- Numbers up to half a step above one are narrowed to one or below it. -/
theorem nearest_le_one_iff {num den : Nat} (hDen : 0 < den) :
    BinaryFormat.single.nearest num den ≤ oneBits ↔ (num : ℚ) / den ≤ 1 + 2 ^ (-24 : Int) := by
  have hHas : BinaryFormat.single.Has 8388608 (-23) := ⟨by decide, by decide, by decide, by decide⟩
  have hHalf :
      (((8388608 : Nat) : ℚ) + 1 / 2) * 2 ^ (-23 : Int) = 1 + 2 ^ (-24 : Int) := by norm_num
  rw [← hHalf, ← BinaryFormat.nearest_le_pattern_iff hHas rfl hDen]
  exact Iff.rfl

/-- Numbers up to half the least single are narrowed to zero. -/
theorem nearest_eq_zero_iff {num den : Nat} (hDen : 0 < den) :
    BinaryFormat.single.nearest num den = 0 ↔ (num : ℚ) / den ≤ 2 ^ (-150 : Int) := by
  have hHas : BinaryFormat.single.Has 0 (-149) := ⟨by decide, by decide, by decide, by decide⟩
  have hHalf : (((0 : Nat) : ℚ) + 1 / 2) * 2 ^ (-149 : Int) = 2 ^ (-150 : Int) := by norm_num
  rw [← hHalf, ← BinaryFormat.nearest_le_pattern_iff hHas rfl hDen]
  exact Nat.le_zero.symm

/-- Which numbers are narrowed to singles from zero to one. -/
theorem unit_toSingle_iff (d : Datum) : 0 ≤ d.toSingle ∧ d.toSingle ≤ 1 ↔
    ∃ v, d.value? = some v ∧ -2 ^ (-150 : Int) ≤ v ∧ v ≤ 1 + 2 ^ (-24 : Int) := by
  rw [unit_iff_toBits, toBits_toSingle]
  cases d with
  | nan => exact iff_of_false (by decide) (by simp [value?])
  | infinite negative => exact iff_of_false (by cases negative <;> decide) (by simp [value?])
  | finite negative m e =>
      have hMost := BinaryFormat.single.nearest_le (m * twoPow e.toNat) (twoPow (-e).toNat)
      have hValue : (0 : ℚ) ≤ m * 2 ^ e := by positivity
      have hSmall : (0 : ℚ) < 2 ^ (-150 : Int) := by positivity
      have hOne : (0 : ℚ) < 1 + 2 ^ (-24 : Int) := by positivity
      rw [BinaryFormat.single_infinityBits] at hMost
      simp only [value?, Option.some.injEq, exists_eq_left', BinaryFormat.encode,
        BinaryFormat.single_signBit]
      cases negative with
      | false =>
          rw [BinaryFormat.signed, if_neg (by decide), if_neg (by decide), or_iff_left (by omega),
            nearest_le_one_iff (twoPow_pos _), cast_binary]
          exact (and_iff_right (by linarith only [hSmall, hValue])).symm
      | true =>
          rw [BinaryFormat.signed, if_pos rfl, if_pos rfl, BinaryFormat.single_signBit,
            or_iff_right (by rw [oneBits]; omega), Nat.add_eq_left,
            nearest_eq_zero_iff (twoPow_pos _),
            cast_binary, neg_le_neg_iff]
          exact (and_iff_left (by linarith only [hOne, hValue])).symm

theorem beq_comm (x y : Float32) : (x == y) = (y == x) := by
  have hSymm : ∀ {a b : UnpackedFloat}, a.beq b = true → b.beq a = true := by
    intro a b h
    rw [Pattern.beq_iff] at h ⊢
    rcases h with ⟨rfl, hNumber⟩ | ⟨hZero, hOther⟩
    · exact .inl ⟨rfl, hNumber⟩
    · exact .inr ⟨hOther, hZero⟩
  exact Bool.eq_iff_iff.mpr ⟨hSymm, hSymm⟩

/-- Equality of singles as numbers can be chained, though what is not a number is not equal to
itself. -/
theorem beq_trans {z : Float32} (hFirst : (x == y) = true) (hSecond : (y == z) = true) :
    (x == z) = true := by
  change x.toModel.unpack.beq y.toModel.unpack = true at hFirst
  change y.toModel.unpack.beq z.toModel.unpack = true at hSecond
  show x.toModel.unpack.beq z.toModel.unpack = true
  rw [Pattern.beq_iff] at hFirst hSecond ⊢
  rcases hFirst with ⟨hEq, hNumber⟩ | ⟨hZero, s, hMiddle⟩
  · rwa [hEq]
  · rcases hSecond with ⟨hEq, -⟩ | ⟨-, hLast⟩
    · exact .inr ⟨hZero, s, hEq ▸ hMiddle⟩
    · exact .inr ⟨hZero, hLast⟩

/-- A single is equal to itself unless it is not a number. -/
theorem beq_self_iff : (x == x) = true ↔ ofSingle x ≠ .nan := by
  show x.toModel.unpack.beq x.toModel.unpack = true ↔ _
  rw [Pattern.beq_iff, ofSingle_eq]
  cases x.toModel.unpack with
  | notANumber =>
      refine iff_of_false ?_ (not_not_intro rfl)
      rintro (⟨-, hNumber⟩ | ⟨⟨s, hZero⟩, -⟩)
      · exact hNumber rfl
      · cases hZero
  | _ => exact iff_of_true (.inl ⟨rfl, UnpackedFloat.noConfusion⟩) Datum.noConfusion

/-- Finite singles that are equal have the same pattern unless just one of them is the negative
zero. -/
theorem toBits_eq_iff_of_beq (h : (x == y) = true) (hFinite : x.isFinite = true) :
    x.toBits = y.toBits ↔
      (x.toBits.toNat = BinaryFormat.single.signBit ↔
        y.toBits.toNat = BinaryFormat.single.signBit) := by
  refine ⟨fun hEq => by rw [hEq], fun hSame => ?_⟩
  apply UInt32.toNat_inj.mp
  obtain ⟨negative, m, q, hDatum⟩ := exists_of_isFinite hFinite
  change x.toModel.unpack.beq y.toModel.unpack = true at h
  rcases Pattern.beq_iff.mp h with ⟨hEq, -⟩ | ⟨⟨s, hZero⟩, s', hOther⟩
  · have hOther :
        ofSingle y = .finite negative m q := by rw [← hDatum, ofSingle_eq, ofSingle_eq, hEq]
    rw [(toBits_of_ofSingle hDatum).2, (toBits_of_ofSingle hOther).2]
  · have hBits : ∀ {z : Float32} {s : Sign}, z.toModel.unpack = .zero s →
        z.toBits.toNat = BinaryFormat.single.signed (s == .negative) 0 := by
      intro z s hUnpack
      refine toBits_of_zero (q := -149) ?_
      rw [ofSingle_eq, hUnpack]
      rfl
    rw [hBits hZero, hBits hOther] at hSame ⊢
    cases s <;> cases s' <;> revert hSame <;> decide

end Datum

end PointStyle
