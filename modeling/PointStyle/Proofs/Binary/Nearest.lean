import Mathlib.Algebra.Order.Field.Power
import Mathlib.Algebra.Order.Ring.Abs
import Mathlib.Tactic.FieldSimp
import Mathlib.Tactic.Linarith
import Mathlib.Tactic.Positivity
import Mathlib.Tactic.Ring
import PointStyle.Binary

/-! Rounding to a binary format. A quotient is rounded to a whole number of steps of a power of two
that its size decides. So a quotient that is nearer to one number of the format than to any other is
rounded to that number, and what a pattern is read as has the value that was rounded to. -/
namespace PointStyle

theorem cast_twoPow (n : Nat) : ((twoPow n : Nat) : ℚ) = 2 ^ n := by
  show ((2 ^ n : Nat) : ℚ) = 2 ^ n
  push_cast
  rfl

theorem twoPow_pos (n : Nat) : 0 < twoPow n := Nat.two_pow_pos n

/-- A quotient in steps of a power of two, as it is written with natural numbers. -/
theorem cast_scaled (num den : Nat) (e : Int) :
    ((num * twoPow (-e).toNat : Nat) : ℚ) / ((den * twoPow e.toNat : Nat) : ℚ) =
      num / den / 2 ^ e := by
  rw [Nat.cast_mul, Nat.cast_mul, cast_twoPow, cast_twoPow]
  rcases Int.le_total 0 e with h | h
  · have hPower : (2 : ℚ) ^ e.toNat = 2 ^ e := by
      rw [← zpow_natCast, Int.toNat_of_nonneg h]
    rw [show (-e).toNat = 0 by omega, hPower, pow_zero, mul_one, div_div]
  · have hPower : (2 : ℚ) ^ (-e).toNat = (2 ^ e)⁻¹ := by
      rw [← zpow_natCast, Int.toNat_of_nonneg (by omega), zpow_neg]
    rw [show e.toNat = 0 by omega, hPower, pow_zero, mul_one, mul_div_right_comm,
      div_eq_mul_inv _ (2 ^ e)]

/-- A multiple of a power of two, as it is written with natural numbers. -/
theorem cast_binary (m : Nat) (q : Int) :
    ((m * twoPow q.toNat : Nat) : ℚ) / (twoPow (-q).toNat : Nat) = m * 2 ^ q := by
  have hScaled := cast_scaled m 1 (-q)
  rwa [Nat.one_mul, neg_neg, Nat.cast_one, div_one, zpow_neg, div_inv_eq_mul] at hScaled

section Logarithm

variable {num den : Nat}

/-- The test of the guess compares the quotient with a power of two. -/
theorem twoPow_le_iff (hDen : 0 < den) (k : Int) :
    den * twoPow k.toNat ≤ num * twoPow (-k).toNat ↔ (2 : ℚ) ^ k ≤ num / den := by
  have hSteps : (0 : ℚ) < 2 ^ k := by positivity
  have hScaled : (0 : ℚ) < ((den * twoPow k.toNat : Nat) : ℚ) := by
    exact_mod_cast Nat.mul_pos hDen (twoPow_pos _)
  rw [← one_le_div hSteps, ← cast_scaled, one_le_div hScaled, Nat.cast_le]

theorem log2_bounds {n : Nat} (h : 0 < n) :
    (2 : ℚ) ^ (n.log2 : Int) ≤ n ∧ (n : ℚ) < 2 ^ ((n.log2 : Int) + 1) := by
  constructor
  · rw [zpow_natCast]
    exact_mod_cast Nat.log2_self_le h.ne'
  · rw [← Nat.cast_succ, zpow_natCast]
    exact_mod_cast Nat.lt_log2_self

/-- The binary logarithm of a quotient, rounded down. -/
theorem floorLog2_spec (hNum : 0 < num) (hDen : 0 < den) :
    (2 : ℚ) ^ floorLog2 num den ≤ num / den ∧
      (num : ℚ) / den < 2 ^ (floorLog2 num den + 1) := by
  have hDenQ : (0 : ℚ) < den := by exact_mod_cast hDen
  obtain ⟨hNumLow, hNumHigh⟩ := log2_bounds hNum
  obtain ⟨hDenLow, hDenHigh⟩ := log2_bounds hDen
  -- The guess is right or one too large.
  have hLow : (2 : ℚ) ^ ((num.log2 : Int) - den.log2 - 1) ≤ num / den := by
    rw [le_div_iff₀ hDenQ]
    calc (2 : ℚ) ^ ((num.log2 : Int) - den.log2 - 1) * den
        ≤ 2 ^ ((num.log2 : Int) - den.log2 - 1) * 2 ^ ((den.log2 : Int) + 1) := by gcongr
      _ = 2 ^ (num.log2 : Int) := by
          rw [← zpow_add₀ two_ne_zero]
          congr 1
          ring
      _ ≤ num := hNumLow
  have hHigh : (num : ℚ) / den < 2 ^ ((num.log2 : Int) - den.log2 + 1) := by
    rw [div_lt_iff₀ hDenQ]
    calc (num : ℚ) < 2 ^ ((num.log2 : Int) + 1) := hNumHigh
      _ = 2 ^ ((num.log2 : Int) - den.log2 + 1) * 2 ^ (den.log2 : Int) := by
          rw [← zpow_add₀ two_ne_zero]
          congr 1
          ring
      _ ≤ 2 ^ ((num.log2 : Int) - den.log2 + 1) * den := by gcongr
  unfold floorLog2
  simp only [twoPow_le_iff hDen]
  split
  · rename_i hTest
    exact ⟨hTest, hHigh⟩
  · rename_i hTest
    rw [Int.sub_add_cancel]
    exact ⟨hLow, not_le.mp hTest⟩

end Logarithm

section HalfEven

variable {num den : Nat}

/-- Rounding moves a quotient by a half at most, and by a half only to an even number. -/
theorem roundHalfEven_spec (hDen : 0 < den) :
    |(roundHalfEven num den : ℚ) - num / den| ≤ 1 / 2 ∧
      (|(roundHalfEven num den : ℚ) - num / den| = 1 / 2 → roundHalfEven num den % 2 = 0) := by
  have hDenQ : (0 : ℚ) < den := by exact_mod_cast hDen
  have hSplit : (num : ℚ) / den = (num / den : Nat) + (num % den : Nat) / den := by
    have hNum : (num : ℚ) = den * (num / den : Nat) + (num % den : Nat) := by
      exact_mod_cast (Nat.div_add_mod num den).symm
    rw [hNum, add_div, mul_div_cancel_left₀ _ hDenQ.ne']
  have hRest : 0 ≤ ((num % den : Nat) : ℚ) / den := by positivity
  unfold roundHalfEven
  generalize num / den = quotient at *
  generalize hRemainder : num % den = remainder at *
  simp only
  rw [hSplit]
  split
  · rename_i hLess
    have hLessQ : 2 * (remainder : ℚ) < den := by exact_mod_cast hLess
    have hHalf : (remainder : ℚ) / den < 1 / 2 := by
      rw [div_lt_iff₀ hDenQ]
      linarith only [hLessQ]
    rw [sub_add_cancel_left, abs_neg, abs_of_nonneg hRest]
    exact ⟨hHalf.le, fun hEq => absurd hEq hHalf.ne⟩
  · have hOne : (remainder : ℚ) / den ≤ 1 := by
      rw [div_le_one hDenQ]
      exact_mod_cast (hRemainder ▸ Nat.mod_lt num hDen).le
    split
    · rename_i hMore
      have hMoreQ : (den : ℚ) < 2 * remainder := by exact_mod_cast hMore
      have hHalf : 1 / 2 < (remainder : ℚ) / den := by
        rw [lt_div_iff₀ hDenQ]
        linarith only [hMoreQ]
      have hDistance : |((quotient + 1 : Nat) : ℚ) - (quotient + remainder / den)| =
          1 - remainder / den := by
        rw [Nat.cast_add, Nat.cast_one, add_sub_add_left_eq_sub,
          abs_of_nonneg (sub_nonneg.mpr hOne)]
      rw [hDistance]
      exact ⟨by linarith only [hHalf], fun hEq => by linarith only [hHalf, hEq]⟩
    · have hTie : (remainder : ℚ) / den = 1 / 2 := by
        have hEq : 2 * remainder = den := by omega
        rw [← hEq]
        have hPos : (0 : ℚ) < remainder := by exact_mod_cast (by omega : 0 < remainder)
        push_cast
        field_simp
      rw [hTie]
      rcases Nat.mod_two_eq_zero_or_one quotient with hEven | hOdd
      · rw [hEven, Nat.add_zero, sub_add_cancel_left, abs_neg, abs_of_pos (by norm_num)]
        exact ⟨le_refl _, fun _ => hEven⟩
      · rw [hOdd, Nat.cast_add, Nat.cast_one, add_sub_add_left_eq_sub, abs_of_pos (by norm_num)]
        exact ⟨by norm_num, fun _ => by omega⟩

/-- A quotient within a half of a whole number is rounded to it; at a half it must be even. -/
theorem roundHalfEven_eq {n : Nat} (hDen : 0 < den) (hClose : |(n : ℚ) - num / den| ≤ 1 / 2)
    (hTie : |(n : ℚ) - num / den| = 1 / 2 → n % 2 = 0) : roundHalfEven num den = n := by
  obtain ⟨hRounded, hRoundedTie⟩ := @roundHalfEven_spec num _ hDen
  generalize roundHalfEven num den = s at *
  by_contra hNe
  -- Two numbers within a half of one quotient are neighbours, both a half away.
  have hApart : (1 : ℚ) ≤ |(s : ℚ) - n| := by
    have hInt : (1 : Int) ≤ |(s : Int) - n| := Int.one_le_abs (by omega)
    exact_mod_cast hInt
  have hTriangle : |(s : ℚ) - n| ≤ |(s : ℚ) - num / den| + |(n : ℚ) - num / den| := by
    rw [abs_sub_comm (n : ℚ)]
    exact abs_sub_le _ _ _
  have hFirst := hRoundedTie (by linarith only [hApart, hTriangle, hRounded, hClose])
  have hSecond := hTie (by linarith only [hApart, hTriangle, hRounded, hClose])
  have hNear : |(s : ℚ) - n| ≤ 1 := by linarith only [hTriangle, hRounded, hClose]
  have hNearInt : |(s : Int) - n| ≤ 1 := by exact_mod_cast hNear
  have hBounds := abs_le.mp hNearInt
  omega

/-- Rounding does not go below a natural number that a quotient reaches. -/
theorem le_roundHalfEven {low : Nat} (hDen : 0 < den) (h : (low : ℚ) ≤ num / den) :
    low ≤ roundHalfEven num den := by
  obtain ⟨hLow, _⟩ := abs_le.mp (@roundHalfEven_spec num _ hDen).1
  have hLess : (low : ℚ) < (roundHalfEven num den + 1 : Nat) := by
    push_cast
    linarith
  exact Nat.lt_succ_iff.mp (by exact_mod_cast hLess)

/-- Rounding does not go above a natural number that a quotient does not exceed. -/
theorem roundHalfEven_le {high : Nat} (hDen : 0 < den) (h : (num : ℚ) / den ≤ high) :
    roundHalfEven num den ≤ high := by
  obtain ⟨_, hHigh⟩ := abs_le.mp (@roundHalfEven_spec num _ hDen).1
  have hLess : (roundHalfEven num den : ℚ) < (high + 1 : Nat) := by
    push_cast
    linarith
  exact Nat.lt_succ_iff.mp (by exact_mod_cast hLess)

/-- A quotient is rounded to an even number or below it up to a half above the number. -/
theorem roundHalfEven_le_iff {n : Nat} (hDen : 0 < den) (hEven : n % 2 = 0) :
    roundHalfEven num den ≤ n ↔ (num : ℚ) / den ≤ n + 1 / 2 := by
  obtain ⟨hClose, hTie⟩ := @roundHalfEven_spec num _ hDen
  generalize roundHalfEven num den = s at *
  obtain ⟨hLow, hHigh⟩ := abs_le.mp hClose
  constructor
  · intro hLe
    have hCast : (s : ℚ) ≤ n := by exact_mod_cast hLe
    linarith only [hLow, hCast]
  · intro hLe
    by_contra hNot
    have hCast : (n : ℚ) + 1 ≤ s := by exact_mod_cast Nat.not_le.mp hNot
    -- Only the next number is near enough, and it is odd.
    have hHalf : (s : ℚ) - num / den = 1 / 2 := by linarith only [hHigh, hLe, hCast]
    have hNext : (s : ℚ) ≤ (n + 1 : Nat) := by
      push_cast
      linarith only [hHalf, hLe]
    have hNextNat : s ≤ n + 1 := by exact_mod_cast hNext
    have hParity := hTie (by rw [hHalf, abs_of_pos (by norm_num)])
    omega

end HalfEven

namespace BinaryFormat

variable {f : BinaryFormat} {num den m : Nat} {q e : Int} {negative : Bool}

/-- The magnitude pattern of `m * 2 ^ q`. -/
def pattern (f : BinaryFormat) (m : Nat) (q : Int) : Nat :=
  (q - f.leastExponent).toNat * twoPow f.fractionBits + m

/-- The format has the number `m * 2 ^ q`: the significand is not too long, it fills its bits unless
the exponent is the least, and the exponent is not too large. -/
structure Has (f : BinaryFormat) (m : Nat) (q : Int) : Prop where
  least : f.leastExponent ≤ q
  bound : m < 2 * twoPow f.fractionBits
  full : f.leastExponent < q → twoPow f.fractionBits ≤ m
  finite : f.pattern m q < f.infinityBits

/-- The exponent of the step to whose multiples a quotient is rounded. -/
structure Steps (f : BinaryFormat) (r : ℚ) (e : Int) : Prop where
  least : f.leastExponent ≤ e
  below : r / 2 ^ e < 2 * twoPow f.fractionBits
  above : f.leastExponent < e → twoPow f.fractionBits ≤ r / 2 ^ e

/-- Every positive quotient lies where steps of some length are taken. -/
theorem exists_steps (f : BinaryFormat) (hNum : 0 < num) (hDen : 0 < den) :
    ∃ e, f.Steps (num / den) e := by
  obtain ⟨hLow, hHigh⟩ := floorLog2_spec hNum hDen
  generalize floorLog2 num den = k at *
  refine ⟨max (k - f.fractionBits) f.leastExponent, le_max_right .., ?_, fun hLess => ?_⟩
  · rw [div_lt_iff₀ (by positivity), cast_twoPow]
    refine hHigh.trans_le ?_
    calc (2 : ℚ) ^ (k + 1) = 2 * 2 ^ f.fractionBits * 2 ^ (k - f.fractionBits) := by
          rw [zpow_add_one₀ two_ne_zero, zpow_sub₀ two_ne_zero, zpow_natCast]
          field_simp
      _ ≤ 2 * 2 ^ f.fractionBits * 2 ^ max (k - f.fractionBits) f.leastExponent := by
          gcongr
          · exact one_le_two
          · exact le_max_left ..
  · have hMax : max (k - f.fractionBits) f.leastExponent = k - f.fractionBits := by omega
    rw [hMax, le_div_iff₀ (by positivity), cast_twoPow, ← zpow_natCast, ← zpow_add₀ two_ne_zero,
      add_sub_cancel]
    exact hLow

/-- Only the least step is longer than the size of a number asks for. -/
theorem Steps.exponent_lt {r : ℚ} {k : Int} (h : f.Steps r e) (hMost : r < 2 ^ k)
    (hLess : f.leastExponent < e) : f.fractionBits + e < k := by
  have hFull := h.above hLess
  rw [le_div_iff₀ (by positivity), cast_twoPow, ← zpow_natCast, ← zpow_add₀ two_ne_zero] at hFull
  exact (zpow_lt_zpow_iff_right₀ one_lt_two).mp (hFull.trans_lt hMost)

/-- A quotient is rounded to a multiple of the steps where it lies, and to infinity if the pattern
is too large. -/
theorem nearest_of_steps (hNum : 0 < num) (hDen : 0 < den) (h : f.Steps (num / den) e) :
    f.nearest num den =
      min (f.pattern (roundHalfEven (num * twoPow (-e).toNat) (den * twoPow e.toNat)) e)
        f.infinityBits := by
  obtain ⟨hLow, hHigh⟩ := floorLog2_spec hNum hDen
  have hUnit : (0 : ℚ) < 2 ^ e := by positivity
  have hOne : (1 : ℚ) < 2 := one_lt_two
  have hBelow : floorLog2 num den - f.fractionBits ≤ e := by
    have hPower : (2 : ℚ) ^ floorLog2 num den < 2 ^ (e + f.fractionBits + 1) := by
      refine hLow.trans_lt ?_
      have hBound := (div_lt_iff₀ hUnit).mp h.below
      rw [cast_twoPow] at hBound
      refine hBound.trans_eq ?_
      rw [zpow_add₀ two_ne_zero, zpow_add₀ two_ne_zero, zpow_natCast, zpow_one]
      ring
    have hLess := (zpow_lt_zpow_iff_right₀ hOne).mp hPower
    omega
  have hExponent : max (floorLog2 num den - f.fractionBits) f.leastExponent = e := by
    rcases h.least.eq_or_lt with hEq | hLess
    · omega
    · have hPower : (2 : ℚ) ^ (e + f.fractionBits) < 2 ^ (floorLog2 num den + 1) := by
        refine lt_of_le_of_lt ?_ hHigh
        have hBound := (le_div_iff₀ hUnit).mp (h.above hLess)
        rw [cast_twoPow] at hBound
        refine le_of_eq_of_le ?_ hBound
        rw [zpow_add₀ two_ne_zero, zpow_natCast]
        ring
      have hMore := (zpow_lt_zpow_iff_right₀ hOne).mp hPower
      omega
  rw [nearest, if_neg hNum.ne']
  simp only [hExponent]
  rfl

/-- Where the length of the steps is known, a quotient is rounded to the nearest of their
multiples. -/
theorem nearest_eq_of_steps {s : Nat} (hNum : 0 < num) (hDen : 0 < den)
    (hSteps : f.Steps (num / den) e) (hFinite : f.pattern s e < f.infinityBits)
    (hClose : |(s : ℚ) - num / den / 2 ^ e| ≤ 1 / 2)
    (hTie : |(s : ℚ) - num / den / 2 ^ e| = 1 / 2 → s % 2 = 0) :
    f.nearest num den = f.pattern s e := by
  have hRound : roundHalfEven (num * twoPow (-e).toNat) (den * twoPow e.toNat) = s := by
    refine roundHalfEven_eq (Nat.mul_pos hDen (twoPow_pos _)) ?_ ?_
    · rw [cast_scaled]
      exact hClose
    · rw [cast_scaled]
      exact hTie
  rw [nearest_of_steps hNum hDen hSteps, hRound, Nat.min_eq_left hFinite.le]

/-- The patterns of one exponent end where those of the next begin. -/
theorem pattern_top (hLeast : f.leastExponent ≤ e) :
    f.pattern (2 * twoPow f.fractionBits) e = f.pattern (twoPow f.fractionBits) (e + 1) := by
  have hSucc : (e + 1 - f.leastExponent).toNat = (e - f.leastExponent).toNat + 1 := by omega
  rw [pattern, pattern, hSucc, Nat.add_mul, Nat.one_mul]
  omega

/-- The patterns of longer steps begin where those of shorter steps end. -/
theorem pattern_top_le (hLeast : f.leastExponent ≤ e) (hLess : e < q) :
    f.pattern (2 * twoPow f.fractionBits) e ≤ f.pattern (twoPow f.fractionBits) q := by
  rw [f.pattern_top hLeast, pattern, pattern]
  exact Nat.add_le_add_right (Nat.mul_le_mul_right _ (by omega)) _

/-- Below a power of two the steps are half as long, and a quotient at most half of such a step away
is rounded up to the power. -/
theorem nearest_eq_power (hLess : f.leastExponent < q) (hFraction : 0 < f.fractionBits)
    (hNum : 0 < num) (hDen : 0 < den)
    (hFinite : f.pattern (twoPow f.fractionBits) q < f.infinityBits)
    (hQuarter : (twoPow f.fractionBits : ℚ) - 1 / 4 ≤ num / den / 2 ^ q)
    (hUnder : (num : ℚ) / den / 2 ^ q < twoPow f.fractionBits) :
    f.nearest num den = f.pattern (twoPow f.fractionBits) q := by
  have hHalved : (num : ℚ) / den / 2 ^ (q - 1) = 2 * (num / den / 2 ^ q) := by
    rw [zpow_sub_one₀ two_ne_zero]
    field_simp
  have hEven : (2 : ℚ) ≤ twoPow f.fractionBits := by
    have hTwo : twoPow 1 ≤ twoPow f.fractionBits := Nat.pow_le_pow_right (by decide) hFraction
    exact_mod_cast hTwo
  have hSteps : f.Steps (num / den) (q - 1) := by
    refine ⟨by omega, ?_, fun _ => ?_⟩ <;> rw [hHalved] <;> linarith only [hUnder, hQuarter, hEven]
  have hDistance : |((2 * twoPow f.fractionBits : Nat) : ℚ) - num / den / 2 ^ (q - 1)| ≤ 1 / 2 := by
    rw [hHalved, abs_le]
    push_cast
    constructor <;> linarith only [hUnder, hQuarter]
  have hPattern := f.pattern_top (e := q - 1) (by omega)
  rw [sub_add_cancel] at hPattern
  rw [← hPattern] at hFinite ⊢
  exact nearest_eq_of_steps hNum hDen hSteps hFinite hDistance fun _ => Nat.mul_mod_right ..

/-- A quotient is rounded to a number that it is near enough to: by half a step, where a half must
go to an even significand, or by a quarter below a power of two, as the numbers there are denser. -/
theorem nearest_eq_pattern (h : f.Has m q) (hPos : 0 < m) (hFraction : 0 < f.fractionBits)
    (hDen : 0 < den) (hClose : |(m : ℚ) - num / den / 2 ^ q| ≤ 1 / 2)
    (hTie : |(m : ℚ) - num / den / 2 ^ q| = 1 / 2 → m % 2 = 0)
    (hBelow : m = twoPow f.fractionBits → f.leastExponent < q →
      (m : ℚ) - 1 / 4 ≤ num / den / 2 ^ q) :
    f.nearest num den = f.pattern m q := by
  obtain ⟨hLow, hHigh⟩ := abs_le.mp hClose
  have hMOne : (1 : ℚ) ≤ m := by exact_mod_cast hPos
  have hNum : 0 < num := by
    rcases Nat.eq_zero_or_pos num with rfl | hNum
    · simp at hHigh
      linarith only [hHigh, hMOne]
    · exact hNum
  have hTop : (m : ℚ) + 1 ≤ 2 * twoPow f.fractionBits := by exact_mod_cast h.bound
  by_cases hSame : f.leastExponent = q ∨ (twoPow f.fractionBits : ℚ) ≤ num / den / 2 ^ q
  · have hSteps : f.Steps (num / den) q :=
      ⟨h.least, by linarith only [hLow, hTop], fun hLess => hSame.resolve_left hLess.ne⟩
    exact nearest_eq_of_steps hNum hDen hSteps h.finite hClose hTie
  · -- The quotient lies below the power of two that it is rounded to.
    rw [not_or, not_le] at hSame
    obtain ⟨hNe, hUnder⟩ := hSame
    have hLess : f.leastExponent < q := lt_of_le_of_ne h.least hNe
    have hEdge : m = twoPow f.fractionBits := by
      have hFull := h.full hLess
      have hMQ : (m : ℚ) < (twoPow f.fractionBits + 1 : Nat) := by
        push_cast
        linarith only [hHigh, hUnder]
      have hM : m < twoPow f.fractionBits + 1 := by exact_mod_cast hMQ
      omega
    have hQuarter := hBelow hEdge hLess
    have hFinite := h.finite
    rw [hEdge] at hQuarter hFinite ⊢
    exact nearest_eq_power hLess hFraction hNum hDen hFinite hQuarter hUnder

theorem two_mul_zpow_le (h : e < q) : (2 : ℚ) * 2 ^ e ≤ 2 ^ q := by
  rw [← zpow_one_add₀ two_ne_zero]
  exact zpow_le_zpow_right₀ one_le_two (by omega)

/-- Which quotients are rounded to a number with an even significand, or to one below it. -/
theorem nearest_le_pattern_iff (h : f.Has m q) (hEven : m % 2 = 0) (hDen : 0 < den) :
    f.nearest num den ≤ f.pattern m q ↔ (num : ℚ) / den ≤ (m + 1 / 2) * 2 ^ q := by
  rcases Nat.eq_zero_or_pos num with rfl | hNum
  · rw [nearest, if_pos rfl, Nat.cast_zero, zero_div]
    exact iff_of_true (Nat.zero_le _) (by positivity)
  obtain ⟨e, hSteps⟩ := f.exists_steps hNum hDen
  have hScaledDen : 0 < den * twoPow e.toNat := Nat.mul_pos hDen (twoPow_pos _)
  have hFinite := h.finite
  rw [nearest_of_steps hNum hDen hSteps]
  -- With steps of another length the number lies on one side of all numbers of the exponent.
  rcases lt_trichotomy e q with hLess | rfl | hMore
  · have hFull := h.full (hSteps.least.trans_lt hLess)
    have hMost : roundHalfEven (num * twoPow (-e).toNat) (den * twoPow e.toNat) ≤
        2 * twoPow f.fractionBits := by
      apply roundHalfEven_le hScaledDen
      rw [cast_scaled]
      exact_mod_cast hSteps.below.le
    refine iff_of_true (min_le_of_left_le ?_) ?_
    · have hTop := f.pattern_top_le hSteps.least hLess
      rw [pattern, pattern] at hTop ⊢
      omega
    · have hBelow := (div_lt_iff₀ (by positivity)).mp hSteps.below
      have hPower : (2 : ℚ) * 2 ^ e ≤ 2 ^ q := two_mul_zpow_le hLess
      have hFullQ : (twoPow f.fractionBits : ℚ) ≤ m := by exact_mod_cast hFull
      calc (num : ℚ) / den ≤ twoPow f.fractionBits * (2 * 2 ^ e) := by linarith only [hBelow]
        _ ≤ m * 2 ^ q := by gcongr
        _ ≤ (m + 1 / 2) * 2 ^ q := by gcongr; norm_num
  · rw [min_le_iff, or_iff_left (Nat.not_le.mpr hFinite), pattern, pattern,
      Nat.add_le_add_iff_left, roundHalfEven_le_iff hScaledDen hEven, cast_scaled,
      div_le_iff₀ (by positivity)]
  · have hAbove := hSteps.above (h.least.trans_lt hMore)
    have hLeast : twoPow f.fractionBits ≤
        roundHalfEven (num * twoPow (-e).toNat) (den * twoPow e.toNat) := by
      apply le_roundHalfEven hScaledDen
      rwa [cast_scaled]
    have hBound := h.bound
    refine iff_of_false (Nat.not_le.mpr (lt_min ?_ hFinite)) (not_le.mpr ?_)
    · have hTop := f.pattern_top_le h.least hMore
      rw [pattern, pattern] at hTop ⊢
      omega
    · have hPower : (2 : ℚ) * 2 ^ q ≤ 2 ^ e := two_mul_zpow_le hMore
      have hBoundQ : (m : ℚ) + 1 ≤ 2 * twoPow f.fractionBits := by exact_mod_cast hBound
      calc ((m : ℚ) + 1 / 2) * 2 ^ q < (m + 1) * 2 ^ q := by gcongr; norm_num
        _ ≤ 2 * twoPow f.fractionBits * 2 ^ q := by gcongr
        _ = twoPow f.fractionBits * (2 * 2 ^ q) := by ring
        _ ≤ twoPow f.fractionBits * 2 ^ e := by gcongr
        _ ≤ num / den := (le_div_iff₀ (by positivity)).mp hAbove

/-- Another way to write a number of the format has the pattern of the number. -/
theorem encode_eq_pattern (h : f.Has m q) (hPos : 0 < m) (hFraction : 0 < f.fractionBits) {m' : Nat}
    {q' : Int} (hValue : (m' : ℚ) * 2 ^ q' = m * 2 ^ q) :
    f.encode (.finite negative m' q') = f.signed negative (f.pattern m q) := by
  have hQuotient : ((m' * twoPow q'.toNat : Nat) : ℚ) / (twoPow (-q').toNat : Nat) / 2 ^ q = m := by
    rw [cast_binary, hValue, mul_div_cancel_right₀ _ (by positivity)]
  rw [encode, nearest_eq_pattern h hPos hFraction (twoPow_pos _)]
  · rw [hQuotient, sub_self, abs_zero]
    norm_num
  · rw [hQuotient, sub_self, abs_zero]
    norm_num
  · intro _ _
    rw [hQuotient]
    linarith

theorem encode_zero (f : BinaryFormat) (negative : Bool) (e : Int) :
    f.encode (.finite negative 0 e) = f.signed negative 0 := by
  rw [encode, Nat.zero_mul, nearest, if_pos rfl]

theorem infinityBits_lt_signBit : f.infinityBits < f.signBit := by
  have hPower : f.signBit = twoPow f.exponentBits * twoPow f.fractionBits := Nat.pow_add ..
  rw [infinityBits, hPower]
  exact Nat.mul_lt_mul_of_pos_right (Nat.sub_lt (twoPow_pos _) Nat.one_pos) (twoPow_pos _)

/-- No pattern that a quotient is rounded to is larger than that of infinity. -/
theorem nearest_le (f : BinaryFormat) (num den : Nat) : f.nearest num den ≤ f.infinityBits := by
  unfold nearest
  split
  · exact Nat.zero_le _
  · exact Nat.min_le_right ..

/-- The sign can be taken off a pattern. -/
theorem signed_mod {bits : Nat} (h : bits < f.signBit) :
    f.signed negative bits % f.signBit = bits := by
  unfold signed
  split
  · rw [Nat.add_mod_left, Nat.mod_eq_of_lt h]
  · exact Nat.mod_eq_of_lt h

/-- How a finite pattern is read. -/
theorem decode_signed {bits : Nat} (h : bits < f.infinityBits) :
    f.decode (f.signed negative bits) =
      if bits / twoPow f.fractionBits = 0 then
        .finite negative (bits % twoPow f.fractionBits) f.leastExponent
      else
        .finite negative (twoPow f.fractionBits + bits % twoPow f.fractionBits)
          (f.leastExponent + ((bits / twoPow f.fractionBits - 1 : Nat) : Int)) := by
  have hSign := f.infinityBits_lt_signBit
  have hMagnitude : f.signed negative bits % f.signBit = bits := signed_mod (by omega)
  have hNegative : decide (f.signBit ≤ f.signed negative bits) = negative := by
    cases negative
    · rw [signed, if_neg (by decide), decide_eq_false (by omega)]
    · rw [signed, if_pos rfl, decide_eq_true (by omega)]
  unfold decode
  simp only [hMagnitude, hNegative]
  rw [if_neg (by omega), if_neg (by omega)]

/-- A pattern of `s` steps is read as a number of the same value, also when there are so many steps
that they carry into the exponent. -/
theorem decode_pattern {s : Nat} (hLeast : f.leastExponent ≤ e)
    (hMost : s ≤ 2 * twoPow f.fractionBits)
    (hFull : f.leastExponent < e → twoPow f.fractionBits ≤ s)
    (hFinite : f.pattern s e < f.infinityBits) :
    ∃ m q, f.decode (f.signed negative (f.pattern s e)) = .finite negative m q ∧
      (m : ℚ) * 2 ^ q = s * 2 ^ e := by
  have hUnit := twoPow_pos f.fractionBits
  rw [decode_signed hFinite]
  by_cases hSmall : s < twoPow f.fractionBits
  · -- Only at the least exponent may the significand be short.
    have hEq : e = f.leastExponent := by
      rcases hLeast.eq_or_lt with hEq | hLess
      · exact hEq.symm
      · exact absurd (hFull hLess) (by omega)
    have hPattern : f.pattern s e = s := by
      rw [pattern, hEq, Int.sub_self, Int.toNat_zero, Nat.zero_mul, Nat.zero_add]
    rw [hPattern, Nat.div_eq_of_lt hSmall, if_pos rfl, Nat.mod_eq_of_lt hSmall, hEq]
    exact ⟨s, _, rfl, rfl⟩
  · obtain ⟨rest, rfl⟩ := Nat.exists_eq_add_of_le (Nat.not_lt.mp hSmall)
    have hPattern : f.pattern (twoPow f.fractionBits + rest) e =
        rest + twoPow f.fractionBits * ((e - f.leastExponent).toNat + 1) := by
      rw [pattern]
      ring
    rw [hPattern, Nat.add_mul_div_left _ _ hUnit, Nat.add_mul_mod_self_left, ← Nat.add_assoc,
      if_neg (Nat.succ_ne_zero _)]
    rcases (show rest ≤ twoPow f.fractionBits by omega).eq_or_lt with hCarry | hRest
    · rw [hCarry, Nat.div_self hUnit, Nat.mod_self, Nat.add_zero]
      refine ⟨_, _, rfl, ?_⟩
      have hExponent : f.leastExponent +
          ((1 + (e - f.leastExponent).toNat + 1 - 1 : Nat) : Int) = e + 1 := by omega
      rw [hExponent, zpow_add_one₀ two_ne_zero]
      push_cast
      ring
    · rw [Nat.div_eq_of_lt hRest, Nat.mod_eq_of_lt hRest]
      refine ⟨_, _, rfl, ?_⟩
      have hExponent : f.leastExponent +
          ((0 + (e - f.leastExponent).toNat + 1 - 1 : Nat) : Int) = e := by omega
      rw [hExponent]

/-- What a quotient is rounded to is read as a number of steps. -/
theorem decode_nearest (hNum : 0 < num) (hDen : 0 < den) (h : f.Steps (num / den) e)
    (hFinite : f.pattern (roundHalfEven (num * twoPow (-e).toNat) (den * twoPow e.toNat)) e <
      f.infinityBits) :
    ∃ m q, f.decode (f.signed negative (f.nearest num den)) = .finite negative m q ∧
      (m : ℚ) * 2 ^ q =
        roundHalfEven (num * twoPow (-e).toNat) (den * twoPow e.toNat) * 2 ^ e := by
  have hScaledDen : 0 < den * twoPow e.toNat := Nat.mul_pos hDen (twoPow_pos _)
  rw [nearest_of_steps hNum hDen h, Nat.min_eq_left hFinite.le]
  refine decode_pattern h.least ?_ (fun hLess => ?_) hFinite
  · refine roundHalfEven_le hScaledDen ?_
    rw [cast_scaled]
    push_cast
    exact h.below.le
  · refine le_roundHalfEven hScaledDen ?_
    rw [cast_scaled]
    exact h.above hLess

/-- What a finite pattern is read as is a number of the format, and the pattern is that of the
number. -/
theorem has_of_decode {bits : Nat} (hBits : bits < 2 * f.signBit)
    (h : f.decode bits = .finite negative m q) :
    f.Has m q ∧ bits = f.signed negative (f.pattern m q) := by
  have hUnit := twoPow_pos f.fractionBits
  have hSplit : bits = f.signed (decide (f.signBit ≤ bits)) (bits % f.signBit) := by
    by_cases hSign : f.signBit ≤ bits
    · rw [decide_eq_true hSign, signed, if_pos rfl, Nat.mod_eq_sub_mod hSign,
        Nat.mod_eq_of_lt (by omega)]
      omega
    · rw [decide_eq_false hSign, signed, if_neg (by decide), Nat.mod_eq_of_lt (by omega)]
  have hFinite : bits % f.signBit < f.infinityBits := by
    by_contra hNot
    unfold decode at h
    simp only at h
    split at h
    · cases h
    · rw [if_pos (by omega)] at h
      cases h
  generalize bits % f.signBit = magnitude at *
  rw [hSplit, decode_signed hFinite] at h
  have hDivMod := Nat.div_add_mod magnitude (twoPow f.fractionBits)
  have hMod := Nat.mod_lt magnitude hUnit
  split at h
  · rename_i hField
    cases h
    have hPattern : f.pattern (magnitude % twoPow f.fractionBits) f.leastExponent = magnitude := by
      rw [pattern, Int.sub_self, Int.toNat_zero, Nat.zero_mul, Nat.zero_add]
      rwa [hField, Nat.mul_zero, Nat.zero_add] at hDivMod
    refine ⟨⟨Int.le_refl _, by omega, fun hLess => absurd hLess (Int.lt_irrefl _), ?_⟩, ?_⟩
    · rwa [hPattern]
    · rw [hPattern, ← hSplit]
  · rename_i hField
    cases h
    have hPattern : f.pattern (twoPow f.fractionBits + magnitude % twoPow f.fractionBits)
        (f.leastExponent + ((magnitude / twoPow f.fractionBits - 1 : Nat) : Int)) = magnitude := by
      obtain ⟨field, hSucc⟩ := Nat.exists_eq_succ_of_ne_zero hField
      rw [pattern, add_sub_cancel_left, Int.toNat_natCast]
      rw [hSucc, Nat.mul_succ, Nat.mul_comm] at hDivMod
      rw [hSucc, Nat.succ_sub_one]
      omega
    refine ⟨⟨by omega, by omega, fun _ => by omega, ?_⟩, ?_⟩
    · rwa [hPattern]
    · rw [hPattern, ← hSplit]

end BinaryFormat

end PointStyle
