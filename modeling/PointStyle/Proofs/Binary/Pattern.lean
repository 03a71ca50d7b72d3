import Mathlib.Algebra.Group.Nat.Defs
import PointStyle.Binary

/-! Patterns and what they are unpacked to. A pattern is its sign, its exponent field and its
fraction; unless it is not a number, packing what it is unpacked to gives it back, and a format
reads it as it is unpacked. -/
namespace PointStyle

open Float.Model Float.Model.UnpackedFloat

namespace Pattern

variable {spec : Format} {b : BitVec spec.numBits}

theorem unpackSign_eq_extractLsb (b : BitVec spec.numBits) :
    unpackSign b =
      (b.extractLsb (spec.mantissaBitsWithoutImplicit + spec.exponentBits)
        (spec.mantissaBitsWithoutImplicit + spec.exponentBits)).cast (by omega) :=
  rfl

/-- A finite number is packed by its exponent: one too large gives infinity, and a significand that
lacks the implicit bit has the exponent field 0. -/
theorem pack_finite (s : Sign) (m : Nat) (e : Int) (hPos : 0 < m) :
    UnpackedFloat.pack spec (.finite s m e hPos) =
      let field := (e + spec.exponentBias + spec.mantissaBitsWithoutImplicit).toNat
      if 2 ^ spec.exponentBits ≤ field + 1 then packedInfinity spec s
      else if m.log2 + 1 = 1 + spec.mantissaBitsWithoutImplicit then
        packComponents spec s (BitVec.ofNat _ field) (BitVec.ofNat _ m)
      else packComponents spec s 0#_ (BitVec.ofNat _ m) :=
  rfl

/-- A pattern is its sign, its exponent field and its fraction. -/
theorem packComponents_unpack (b : BitVec spec.numBits) :
    packComponents spec (Sign.ofBitVec (unpackSign b)) (unpackExponent b) (unpackMantissa b) =
      b := by
  have hSign : (Sign.ofBitVec (unpackSign b)).toBitVec = unpackSign b := by
    rcases BitVec.eq_zero_or_eq_one (unpackSign b) with h | h <;> rw [h] <;> rfl
  have hm := spec.hm
  have he := spec.he
  rw [packComponents, hSign]
  ext i hi
  simp only [unpackSign_eq_extractLsb, unpackExponent, unpackMantissa, BitVec.getElem_cast,
    BitVec.getElem_append, BitVec.extractLsb, BitVec.getElem_extractLsb', dite_eq_ite]
  rw [← BitVec.getLsbD_eq_getElem]
  split
  · rw [Nat.zero_add]
  · split <;> congr 1 <;> omega

/-- The implicit bit stands above the fraction. -/
theorem toNat_implicit {w : Nat} (fraction : BitVec w) :
    (1#1 ++ fraction).toNat = 2 ^ w + fraction.toNat := by
  have hAdd := Nat.two_pow_add_eq_or_of_lt fraction.isLt 1
  rw [BitVec.toNat_append]
  simpa [Nat.shiftLeft_eq] using hAdd.symm

/-- A vector of ones is the largest number of its width. -/
theorem eq_neg_one_iff {w : Nat} {x : BitVec w} (hw : 0 < w) : x = -1#w ↔ x.toNat + 1 = 2 ^ w := by
  have hLess := x.isLt
  have hOne : (1#w).toNat = 1 := by
    rw [BitVec.toNat_ofNat]
    exact Nat.mod_eq_of_lt (Nat.one_lt_two_pow (by omega))
  rw [BitVec.toNat_eq, BitVec.toNat_neg, hOne, Nat.mod_eq_of_lt (by omega)]
  omega

/-- The largest exponent field is left to infinity and to what is not a number. -/
theorem unpack_last (h : unpackExponent b = -1#_) :
    UnpackedFloat.unpack spec b =
      if unpackMantissa b = 0#_ then .infinity (Sign.ofBitVec (unpackSign b)) else .notANumber :=
  if_pos h

/-- The exponent field 0 with no fraction is a zero. -/
theorem unpack_zero (hField : unpackExponent b ≠ -1#_) (h : unpackExponent b = 0#_)
    (hNone : unpackMantissa b = 0#_) :
    UnpackedFloat.unpack spec b = .zero (Sign.ofBitVec (unpackSign b)) :=
  (if_neg hField).trans ((if_pos h).trans (dif_pos hNone))

/-- The exponent field 0 with a fraction is a number without the implicit bit. -/
theorem unpack_subnormal (hField : unpackExponent b ≠ -1#_) (h : unpackExponent b = 0#_)
    (hSome : unpackMantissa b ≠ 0#_) :
    UnpackedFloat.unpack spec b =
      .finite (Sign.ofBitVec (unpackSign b)) (unpackMantissa b).toNat
        ((unpackExponent b).toNat -
          (spec.exponentBias + spec.mantissaBitsWithoutImplicit : Int) + 1)
        (BitVec.toNat_pos_of_ne_zero hSome) :=
  (if_neg hField).trans ((if_pos h).trans (dif_neg hSome))

/-- Any other exponent field is that of a number with the implicit bit. -/
theorem unpack_normal (h : unpackExponent b ≠ -1#_) (hNormal : unpackExponent b ≠ 0#_) :
    UnpackedFloat.unpack spec b =
      .finite (Sign.ofBitVec (unpackSign b)) (1#1 ++ unpackMantissa b).toNat
        ((unpackExponent b).toNat - (spec.exponentBias + spec.mantissaBitsWithoutImplicit : Int))
        (toNat_implicit _ ▸ Nat.add_pos_left (Nat.two_pow_pos _) _) :=
  (if_neg h).trans (if_neg hNormal)

theorem pack_unpack_subnormal (hWide : 2 ≤ spec.exponentBits) (h : unpackExponent b = 0#_) :
    UnpackedFloat.pack spec (UnpackedFloat.unpack spec b) = b := by
  have hSelf := packComponents_unpack b
  rw [h] at hSelf
  have hPower : 2 ^ 2 ≤ 2 ^ spec.exponentBits := Nat.pow_le_pow_right (by decide) hWide
  have hField : unpackExponent b ≠ -1#_ := by
    rw [ne_eq, eq_neg_one_iff (by omega), h]
    simp
    omega
  by_cases hNone : unpackMantissa b = 0#_
  · rw [hNone] at hSelf
    rw [unpack_zero hField h hNone]
    exact hSelf
  · have hLog : (unpackMantissa b).toNat.log2 < spec.mantissaBitsWithoutImplicit :=
      (Nat.log2_lt (Nat.ne_of_gt (BitVec.toNat_pos_of_ne_zero hNone))).mpr (unpackMantissa b).isLt
    rw [unpack_subnormal hField h hNone, pack_finite]
    simp only
    rw [if_neg, if_neg (by omega), BitVec.ofNat_toNat, BitVec.setWidth_eq, hSelf]
    rw [h]
    simp
    omega

theorem pack_unpack_normal (h : unpackExponent b ≠ -1#_) (hNormal : unpackExponent b ≠ 0#_) :
    UnpackedFloat.pack spec (UnpackedFloat.unpack spec b) = b := by
  have hFraction := (unpackMantissa b).isLt
  have hField : (unpackExponent b).toNat + 1 < 2 ^ spec.exponentBits := by
    have hNe : (unpackExponent b).toNat + 1 ≠ 2 ^ spec.exponentBits :=
      fun hEq => h ((eq_neg_one_iff spec.he).mpr hEq)
    have hLess := (unpackExponent b).isLt
    omega
  have hLog : (2 ^ spec.mantissaBitsWithoutImplicit + (unpackMantissa b).toNat).log2 =
      spec.mantissaBitsWithoutImplicit := by
    have hPos := Nat.two_pow_pos spec.mantissaBitsWithoutImplicit
    refine (Nat.log2_eq_iff (by omega)).mpr ?_
    rw [Nat.pow_succ]
    omega
  have hBiased : ((unpackExponent b).toNat -
      (spec.exponentBias + spec.mantissaBitsWithoutImplicit : Int) +
      spec.exponentBias + spec.mantissaBitsWithoutImplicit).toNat = (unpackExponent b).toNat := by
    omega
  -- Cut down to the fraction, the significand loses its implicit bit again.
  have hClear :
      BitVec.ofNat spec.mantissaBitsWithoutImplicit (2 ^ spec.mantissaBitsWithoutImplicit) =
      0#_ := by
    apply BitVec.eq_of_toNat_eq
    rw [BitVec.toNat_ofNat, Nat.mod_self, BitVec.toNat_ofNat, Nat.zero_mod]
  rw [unpack_normal h hNormal, pack_finite]
  simp only [toNat_implicit, hBiased]
  rw [if_neg (by omega), if_pos (by omega), BitVec.ofNat_toNat, BitVec.setWidth_eq,
    BitVec.ofNat_add, BitVec.ofNat_toNat, BitVec.setWidth_eq, hClear, BitVec.zero_add,
    packComponents_unpack]

/-- What a pattern is unpacked to is finite unless its exponent field is the largest. -/
theorem isFinite_unpack_iff :
    (UnpackedFloat.unpack spec b).isFinite = true ↔ unpackExponent b ≠ -1#_ := by
  by_cases hLast : unpackExponent b = -1#_
  · refine iff_of_false ?_ (not_not_intro hLast)
    rw [unpack_last hLast]
    split <;> exact Bool.false_ne_true
  · refine iff_of_true ?_ hLast
    by_cases hZero : unpackExponent b = 0#_
    · by_cases hNone : unpackMantissa b = 0#_
      · rw [unpack_zero hLast hZero hNone]
        rfl
      · rw [unpack_subnormal hLast hZero hNone]
        rfl
    · rw [unpack_normal hLast hZero]
      rfl

/-- A pattern that is not of the largest exponent is stored as it is. -/
theorem pack_unpack (hWide : 2 ≤ spec.exponentBits) (h : unpackExponent b ≠ -1#_) :
    UnpackedFloat.pack spec (UnpackedFloat.unpack spec b) = b := by
  by_cases hZero : unpackExponent b = 0#_
  · exact pack_unpack_subnormal hWide hZero
  · exact pack_unpack_normal h hZero

/-- The exponent field of a pattern as digits of the number that it writes. -/
theorem toNat_unpackExponent (b : BitVec spec.numBits) :
    (unpackExponent b).toNat =
      b.toNat / 2 ^ spec.mantissaBitsWithoutImplicit % 2 ^ spec.exponentBits := by
  have he := spec.he
  rw [unpackExponent, BitVec.toNat_cast, BitVec.extractLsb_toNat, Nat.shiftRight_eq_div_pow]
  congr 2
  omega

/-- The fraction of a pattern as the last digits of the number that it writes. -/
theorem toNat_unpackMantissa (b : BitVec spec.numBits) :
    (unpackMantissa b).toNat = b.toNat % 2 ^ spec.mantissaBitsWithoutImplicit := by
  have hm := spec.hm
  rw [unpackMantissa, BitVec.toNat_cast, BitVec.extractLsb_toNat, Nat.shiftRight_zero]
  congr 2
  omega

/-- The sign of a pattern is its first digit. -/
theorem unpackSign_eq_zero_iff (b : BitVec spec.numBits) :
    unpackSign b = 0#1 ↔
      b.toNat < 2 ^ (spec.exponentBits + spec.mantissaBitsWithoutImplicit) := by
  have hWidth : spec.numBits = spec.exponentBits + spec.mantissaBitsWithoutImplicit + 1 := by
    rw [Format.numBits]
    omega
  have hLess : b.toNat < 2 ^ (spec.exponentBits + spec.mantissaBitsWithoutImplicit) * 2 :=
    Nat.lt_of_lt_of_eq b.isLt (by rw [hWidth, Nat.pow_succ])
  rw [BitVec.toNat_eq, unpackSign_eq_extractLsb, BitVec.toNat_cast, BitVec.extractLsb_toNat,
    Nat.shiftRight_eq_div_pow, Nat.add_comm spec.mantissaBitsWithoutImplicit, Nat.sub_self]
  have hPos := Nat.two_pow_pos (spec.exponentBits + spec.mantissaBitsWithoutImplicit)
  generalize 2 ^ (spec.exponentBits + spec.mantissaBitsWithoutImplicit) = unit at *
  rw [Nat.mod_eq_of_lt (Nat.div_lt_of_lt_mul hLess)]
  exact Nat.div_eq_zero_iff_lt hPos

/-- Infinite numbers compare equal if they have the same sign. -/
theorem beq_infinity_iff {s s' : Sign} : (infinity s).beq (infinity s') = true ↔ s = s' := by
  cases s <;> cases s'
  case positive.positive | negative.negative => exact iff_of_true rfl rfl
  all_goals exact iff_of_false Bool.false_ne_true fun hSame => Sign.noConfusion hSame

/-- Finite numbers compare equal if they have the same sign, significand and exponent. -/
theorem beq_finite_iff {s s' : Sign} {m m' : Nat} {e e' : Int} {hPos : 0 < m} {hPos' : 0 < m'} :
    (finite s m e hPos).beq (finite s' m' e' hPos') = true ↔ s = s' ∧ m = m' ∧ e = e' := by
  have hCompare : (compare e e').then (compare m m') = .eq ↔ m = m' ∧ e = e' := by
    rw [Ordering.then_eq_eq, Std.compare_eq_iff_eq, Std.compare_eq_iff_eq, and_comm]
  have hSome : ∀ o : Ordering, (some o == some Ordering.eq) = true ↔ o = .eq := by
    intro o
    cases o <;> decide
  have hSwap : ∀ o : Ordering, o.swap = .eq ↔ o = .eq := by
    intro o
    cases o <;> decide
  cases s <;> cases s'
  case positive.positive => exact (hSome _).trans (hCompare.trans (and_iff_right rfl).symm)
  case negative.negative =>
    exact (hSome _).trans ((hSwap _).trans (hCompare.trans (and_iff_right rfl).symm))
  all_goals exact iff_of_false Bool.false_ne_true fun hSame => Sign.noConfusion hSame.1

/-- Numbers of different kinds do not compare equal, and are no two zeros. -/
theorem beq_iff_of_kind {a b : UnpackedFloat} (hBeq : a.beq b = false)
    (hKind : a.ctorIdx ≠ b.ctorIdx) : a.beq b = true ↔
      a = b ∧ a ≠ .notANumber ∨ (∃ s, a = .zero s) ∧ ∃ s, b = .zero s := by
  refine iff_of_false (Bool.eq_false_iff.mp hBeq) ?_
  rintro (⟨rfl, -⟩ | ⟨⟨s, rfl⟩, t, rfl⟩)
  · exact hKind rfl
  · exact hKind rfl

/-- Numbers that are not zero compare equal if they are the same. -/
theorem beq_iff_of_ne_zero {a b : UnpackedFloat} (hBeq : a.beq b = true ↔ a = b)
    (hNumber : a ≠ .notANumber) (hZero : ∀ s, a ≠ .zero s) : a.beq b = true ↔
      a = b ∧ a ≠ .notANumber ∨ (∃ s, a = .zero s) ∧ ∃ s, b = .zero s := by
  refine hBeq.trans ⟨fun hSame => .inl ⟨hSame, hNumber⟩, ?_⟩
  rintro (⟨hSame, -⟩ | ⟨⟨s, hEq⟩, -⟩)
  · exact hSame
  · exact absurd hEq (hZero s)

/-- Unpacked numbers compare equal if they are the same number, or if both are zeros. -/
theorem beq_iff {a b : UnpackedFloat} : a.beq b = true ↔
    a = b ∧ a ≠ .notANumber ∨ (∃ s, a = .zero s) ∧ ∃ s, b = .zero s := by
  cases a with
  | notANumber =>
      refine iff_of_false (by cases b <;> exact Bool.false_ne_true) ?_
      rintro (⟨-, hNumber⟩ | ⟨⟨s, hZero⟩, -⟩)
      · exact hNumber rfl
      · cases hZero
  | infinity s =>
      cases b with
      | infinity s' =>
          refine beq_iff_of_ne_zero ?_ UnpackedFloat.noConfusion fun _ => UnpackedFloat.noConfusion
          rw [beq_infinity_iff, infinity.injEq]
      | _ => exact beq_iff_of_kind (by cases s <;> rfl) (Nat.ne_of_beq_eq_false rfl)
  | zero s =>
      cases b with
      | zero s' => exact iff_of_true rfl (.inr ⟨⟨s, rfl⟩, s', rfl⟩)
      | notANumber => exact beq_iff_of_kind rfl (Nat.ne_of_beq_eq_false rfl)
      | infinity s' | finite s' =>
          exact beq_iff_of_kind (by cases s' <;> rfl) (Nat.ne_of_beq_eq_false rfl)
  | finite s m e hPos =>
      cases b with
      | finite s' m' e' hPos' =>
          refine beq_iff_of_ne_zero ?_ UnpackedFloat.noConfusion fun _ => UnpackedFloat.noConfusion
          rw [beq_finite_iff, finite.injEq]
      | infinity s' =>
          exact beq_iff_of_kind (by cases s <;> cases s' <;> rfl) (Nat.ne_of_beq_eq_false rfl)
      | _ => exact beq_iff_of_kind (by cases s <;> rfl) (Nat.ne_of_beq_eq_false rfl)

end Pattern

/-- The datum of an unpacked number. A zero has the least exponent. -/
def Datum.ofUnpacked (least : Int) : UnpackedFloat → Datum
  | .notANumber => .nan
  | .infinity s => .infinite (s == .negative)
  | .zero s => .finite (s == .negative) 0 least
  | .finite s m e _ => .finite (s == .negative) m e

theorem Datum.ofUnpacked_finite (least : Int) (s : Sign) (m : Nat) (e : Int) (hPos : 0 < m) :
    ofUnpacked least (.finite s m e hPos) = .finite (s == .negative) m e :=
  rfl

theorem Datum.isFinite_ofUnpacked (least : Int) (x : UnpackedFloat) :
    (ofUnpacked least x).isFinite = x.isFinite := by
  cases x <;> rfl

namespace BinaryFormat

variable {spec : Format}

/-- The format with the widths of a model of numbers. -/
def ofSpec (spec : Format) : BinaryFormat := ⟨spec.mantissaBitsWithoutImplicit, spec.exponentBits⟩

theorem leastExponent_ofSpec (spec : Format) :
    (ofSpec spec).leastExponent =
      1 - (spec.exponentBias + spec.mantissaBitsWithoutImplicit : Int) := by
  have hPos : 0 < 2 ^ (spec.exponentBits - 1) := Nat.two_pow_pos _
  have hCast : ((2 ^ (spec.exponentBits - 1) - 1 : Nat) : Int) =
      (twoPow (spec.exponentBits - 1) : Int) - 1 := Int.natCast_sub hPos
  rw [leastExponent, Format.exponentBias, hCast]
  show 2 - (twoPow (spec.exponentBits - 1) : Int) - (spec.mantissaBitsWithoutImplicit : Int) = _
  omega

/-- A pattern is negative from the weight of the sign bit on. -/
theorem decide_signBit_le (b : BitVec spec.numBits) :
    decide ((ofSpec spec).signBit ≤ b.toNat) =
      (Sign.ofBitVec (unpackSign b) == .negative) := by
  have hIff : unpackSign b = 0#1 ↔ b.toNat < (ofSpec spec).signBit :=
    Pattern.unpackSign_eq_zero_iff b
  by_cases hZero : unpackSign b = 0#1
  · rw [hZero, decide_eq_false (Nat.not_le.mpr (hIff.mp hZero))]
    rfl
  · rw [Sign.ofBitVec, if_neg hZero]
    exact decide_eq_true (Nat.not_lt.mp fun hLess => hZero (hIff.mpr hLess))

theorem signBit_ofSpec (spec : Format) : (ofSpec spec).signBit =
    2 ^ spec.mantissaBitsWithoutImplicit * 2 ^ spec.exponentBits := by
  rw [← Nat.pow_add, Nat.add_comm]
  rfl

theorem field_ofSpec (b : BitVec spec.numBits) :
    b.toNat % (ofSpec spec).signBit / twoPow (ofSpec spec).fractionBits =
      (unpackExponent b).toNat := by
  rw [signBit_ofSpec, Pattern.toNat_unpackExponent]
  exact Nat.mod_mul_right_div_self ..

theorem fraction_ofSpec (b : BitVec spec.numBits) :
    b.toNat % (ofSpec spec).signBit % twoPow (ofSpec spec).fractionBits =
      (unpackMantissa b).toNat := by
  rw [signBit_ofSpec, Pattern.toNat_unpackMantissa]
  exact Nat.mod_mul_right_mod ..

/-- A pattern without its sign is its exponent field followed by its fraction. -/
theorem magnitude_ofSpec (b : BitVec spec.numBits) :
    b.toNat % (ofSpec spec).signBit =
      (unpackExponent b).toNat * twoPow (ofSpec spec).fractionBits + (unpackMantissa b).toNat := by
  have hSplit :=
    Nat.div_add_mod (b.toNat % (ofSpec spec).signBit) (twoPow (ofSpec spec).fractionBits)
  rw [field_ofSpec, fraction_ofSpec, Nat.mul_comm] at hSplit
  exact hSplit.symm

/-- The magnitudes below that of infinity are those without the largest exponent. -/
theorem magnitude_lt_iff (b : BitVec spec.numBits) :
    b.toNat % (ofSpec spec).signBit < (ofSpec spec).infinityBits ↔ unpackExponent b ≠ -1#_ := by
  have hField := (unpackExponent b).isLt
  have hFraction : (unpackMantissa b).toNat < twoPow (ofSpec spec).fractionBits :=
    (unpackMantissa b).isLt
  rw [magnitude_ofSpec, infinityBits, ne_eq, Pattern.eq_neg_one_iff spec.he]
  refine ⟨fun hLess hLast => ?_, fun hNe => ?_⟩
  · have hEqual : (unpackExponent b).toNat = twoPow (ofSpec spec).exponentBits - 1 := by
      show _ = 2 ^ spec.exponentBits - 1
      omega
    rw [hEqual] at hLess
    omega
  · refine Nat.lt_of_lt_of_le (Nat.add_lt_add_left hFraction _) ?_
    rw [← Nat.succ_mul]
    apply Nat.mul_le_mul_right
    show _ ≤ 2 ^ spec.exponentBits - 1
    omega

/-- A format reads a pattern as it is unpacked. -/
theorem decode_ofSpec (b : BitVec spec.numBits) :
    (ofSpec spec).decode b.toNat =
      Datum.ofUnpacked (ofSpec spec).leastExponent (UnpackedFloat.unpack spec b) := by
  have hFinite := magnitude_lt_iff b
  unfold decode
  simp only [decide_signBit_le, field_ofSpec, fraction_ofSpec]
  by_cases hLast : unpackExponent b = -1#_
  · -- The largest exponent is left to what is not finite.
    have hInfinity : b.toNat % (ofSpec spec).signBit =
        (ofSpec spec).infinityBits + (unpackMantissa b).toNat := by
      have hEqual : (unpackExponent b).toNat = twoPow (ofSpec spec).exponentBits - 1 :=
        Nat.eq_sub_of_add_eq ((Pattern.eq_neg_one_iff spec.he).mp hLast)
      rw [magnitude_ofSpec, hEqual, infinityBits]
    rw [Pattern.unpack_last hLast, hInfinity]
    by_cases hNone : unpackMantissa b = 0#_
    · rw [if_pos hNone, hNone, BitVec.toNat_ofNat, Nat.zero_mod, if_neg (by omega),
        if_pos (by omega)]
      rfl
    · have hSome := BitVec.toNat_pos_of_ne_zero hNone
      rw [if_neg hNone, if_pos (by omega)]
      rfl
  · have hLess := hFinite.mpr hLast
    rw [if_neg (by omega), if_neg (by omega)]
    by_cases hZero : unpackExponent b = 0#_
    · have hField : (unpackExponent b).toNat = 0 := by rw [hZero, BitVec.toNat_ofNat, Nat.zero_mod]
      rw [if_pos hField]
      by_cases hNone : unpackMantissa b = 0#_
      · rw [Pattern.unpack_zero hLast hZero hNone, hNone, BitVec.toNat_ofNat, Nat.zero_mod]
        rfl
      · rw [Pattern.unpack_subnormal hLast hZero hNone, Datum.ofUnpacked_finite,
          leastExponent_ofSpec]
        congr 1
        omega
    · have hPos := BitVec.toNat_pos_of_ne_zero hZero
      rw [Pattern.unpack_normal hLast hZero, Datum.ofUnpacked_finite, if_neg (by omega),
        leastExponent_ofSpec, Pattern.toNat_implicit]
      congr 1
      omega

end BinaryFormat

end PointStyle
