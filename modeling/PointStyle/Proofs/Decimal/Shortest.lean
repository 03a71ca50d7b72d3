import PointStyle.Decimal.Shortest
import PointStyle.Proofs.Binary.Nearest

/-! The shortest decimal of a number. The search looks at ever finer grids and ends at the first
that has a point among the numbers that are rounded to the given one. So the decimal is such a
number, and on a grid that is fine enough it lies within half a grid step of the given number. -/
namespace PointStyle

theorem cast_tenPow (n : Nat) : ((tenPow n : Nat) : ℚ) = 10 ^ n := by
  show ((10 ^ n : Nat) : ℚ) = 10 ^ n
  push_cast
  rfl

theorem tenPow_pos (n : Nat) : 0 < tenPow n := Nat.pow_pos (by decide)

/-- A multiple of a power of ten, as it is written with natural numbers. -/
theorem cast_decimal (c : Nat) (k : Int) :
    ((c * tenPow k.toNat : Nat) : ℚ) / (tenPow (-k).toNat : Nat) = c * 10 ^ k := by
  rw [Nat.cast_mul, cast_tenPow, cast_tenPow]
  rcases Int.le_total 0 k with h | h
  · have hPower : (10 : ℚ) ^ k.toNat = 10 ^ k := by rw [← zpow_natCast, Int.toNat_of_nonneg h]
    rw [show (-k).toNat = 0 by omega, hPower, pow_zero, div_one]
  · have hPower : (10 : ℚ) ^ (-k).toNat = (10 ^ k)⁻¹ := by
      rw [← zpow_natCast, Int.toNat_of_nonneg (by omega), zpow_neg]
    rw [show k.toNat = 0 by omega, hPower, pow_zero, mul_one, div_inv_eq_mul]

namespace Decimal

/-- A number of quarters lies in the interval. -/
def Interval.Mem (i : Interval) (t : ℚ) : Prop :=
  if i.closed then (i.low : ℚ) ≤ t ∧ t ≤ i.high else (i.low : ℚ) < t ∧ t < i.high

section Grid

variable {i : Interval} {tie : Tie} {a b c : Nat} {w : ℚ}

/-- The test with natural numbers says whether a quotient lies in the interval. -/
theorem Interval.contains_iff (hb : 0 < b) : i.contains a b ↔ i.Mem (a / b) := by
  have hbQ : (0 : ℚ) < b := by exact_mod_cast hb
  unfold contains Mem
  split
  · rw [le_div_iff₀ hbQ, div_le_iff₀ hbQ, Bool.and_eq_true, decide_eq_true_eq, decide_eq_true_eq]
    norm_cast
  · rw [lt_div_iff₀ hbQ, div_lt_iff₀ hbQ, Bool.and_eq_true, decide_eq_true_eq, decide_eq_true_eq]
    norm_cast

/-- The middle lies between two neighbours on the grid. -/
theorem middle_eq (ha : 0 < a) (hb : 0 < b) :
    ∃ rest : ℚ, rest = ((i.middle * b % a : Nat) : ℚ) / b ∧ 0 ≤ rest ∧ rest < a / b ∧
      (i.middle : ℚ) = (i.middle * b / a : Nat) * (a / b) + rest := by
  have hbQ : (0 : ℚ) < b := by exact_mod_cast hb
  refine ⟨_, rfl, by positivity, ?_, ?_⟩
  · gcongr
    exact Nat.mod_lt _ ha
  · have hSplit : (i.middle : ℚ) * b = a * (i.middle * b / a : Nat) + (i.middle * b % a : Nat) := by
      exact_mod_cast (Nat.div_add_mod (i.middle * b) a).symm
    rw [mul_div_assoc', ← add_div, mul_comm _ (a : ℚ), ← hSplit, mul_div_cancel_right₀ _ hbQ.ne']

/-- The point that is found lies in the interval. -/
theorem mem_of_onGrid (hb : 0 < b) (h : onGrid tie i (a, b) = some c) : i.Mem (c * (a / b)) := by
  have hMem : ∀ n : Nat, i.contains (n * a) b = true → i.Mem (n * (a / b)) := by
    intro n hn
    have hIn := (Interval.contains_iff hb).mp hn
    rwa [Nat.cast_mul, mul_div_assoc] at hIn
  unfold onGrid at h
  simp only at h
  split at h
  · rename_i hBoth
    obtain ⟨hDown, hUp⟩ := Bool.and_eq_true_iff.mp hBoth
    split at h
    · cases h
      exact hMem _ hDown
    · split at h
      · cases h
        exact hMem _ hUp
      · cases tie with
        | up =>
            cases h
            exact hMem _ hUp
        | even =>
            cases h
            rcases Nat.mod_two_eq_zero_or_one (i.middle * b / a) with hEven | hOdd
            · rw [hEven]
              exact hMem _ hDown
            · rw [hOdd]
              exact hMem _ hUp
  · split at h
    · rename_i hDown
      cases h
      exact hMem _ hDown
    · split at h
      · rename_i hUp
        cases h
        exact hMem _ hUp
      · cases h

/-- The interval holds both neighbours of its middle on a grid whose step is small. -/
theorem neighbours_of_fine (hWide : ∀ t : ℚ, |t - i.middle| < w → i.Mem t) (ha : 0 < a) (hb : 0 < b)
    (hStep : (a : ℚ) / b < w) :
    i.contains (i.middle * b / a * a) b = true ∧
    i.contains ((i.middle * b / a + 1) * a) b = true := by
  obtain ⟨rest, -, hNonneg, hLess, hMiddle⟩ := middle_eq (i := i) ha hb
  constructor
  · refine (Interval.contains_iff hb).mpr (hWide _ ?_)
    rw [Nat.cast_mul, mul_div_assoc, hMiddle, sub_add_cancel_left, abs_neg, abs_of_nonneg hNonneg]
    linarith only [hLess, hStep]
  · refine (Interval.contains_iff hb).mpr (hWide _ ?_)
    rw [Nat.cast_mul, mul_div_assoc, hMiddle, Nat.cast_succ, add_mul, one_mul,
      add_sub_add_left_eq_sub, abs_of_pos (sub_pos.mpr hLess)]
    linarith only [hNonneg, hStep]

/-- A grid whose step is less than the width around the middle has a point in the interval. -/
theorem isSome_onGrid (hWide : ∀ t : ℚ, |t - i.middle| < w → i.Mem t) (ha : 0 < a) (hb : 0 < b)
    (hStep : (a : ℚ) / b < w) : (onGrid tie i (a, b)).isSome := by
  obtain ⟨hDown, hUp⟩ := neighbours_of_fine hWide ha hb hStep
  unfold onGrid
  simp only [hDown, hUp, Bool.and_self, if_true]
  split
  · rfl
  · split
    · rfl
    · cases tie <;> rfl

/-- On a fine grid the point that is found is the nearest to the middle. -/
theorem close_of_onGrid (hWide : ∀ t : ℚ, |t - i.middle| < w → i.Mem t) (ha : 0 < a) (hb : 0 < b)
    (hStep : (a : ℚ) / b < w) (h : onGrid tie i (a, b) = some c) :
    |c * (a / b) - (i.middle : ℚ)| ≤ a / b / 2 := by
  obtain ⟨hDown, hUp⟩ := neighbours_of_fine hWide ha hb hStep
  obtain ⟨rest, hRest, hNonneg, hLess, hMiddle⟩ := middle_eq (i := i) ha hb
  have hbQ : (0 : ℚ) < b := by exact_mod_cast hb
  have hBelow :
      rest ≤ a / b / 2 → |((i.middle * b / a : Nat) : ℚ) * (a / b) - i.middle| ≤ a / b / 2 := by
    intro hHalf
    rwa [hMiddle, sub_add_cancel_left, abs_neg, abs_of_nonneg hNonneg]
  have hAbove : a / b / 2 ≤ rest →
      |((i.middle * b / a + 1 : Nat) : ℚ) * (a / b) - i.middle| ≤ a / b / 2 := by
    intro hHalf
    rw [hMiddle, Nat.cast_succ, add_mul, one_mul, add_sub_add_left_eq_sub,
      abs_of_pos (sub_pos.mpr hLess)]
    linarith only [hHalf]
  have hTwice : rest = 2 * ((i.middle * b % a : Nat) : ℚ) / b / 2 := by
    rw [hRest]
    ring
  unfold onGrid at h
  simp only [hDown, hUp, Bool.and_self, if_true] at h
  split at h
  · rename_i hSmall
    cases h
    refine hBelow ?_
    rw [hTwice]
    gcongr
    exact_mod_cast hSmall.le
  · split at h
    · rename_i hLarge
      cases h
      refine hAbove ?_
      rw [hTwice]
      gcongr
      exact_mod_cast hLarge.le
    · have hHalf : rest = a / b / 2 := by
        have hEq : 2 * (i.middle * b % a) = a := by omega
        rw [hTwice]
        congr 2
        exact_mod_cast hEq
      cases tie with
      | up =>
          cases h
          exact hAbove hHalf.ge
      | even =>
          cases h
          rcases Nat.mod_two_eq_zero_or_one (i.middle * b / a) with hEven | hOdd
          · rw [hEven]
            exact hBelow hHalf.le
          · rw [hOdd]
            exact hAbove hHalf.ge

end Grid

section Search

variable {tie : Tie} {i : Interval} {q k : Int}

theorem gridStep_pos (q k : Int) : 0 < (gridStep q k).1 ∧ 0 < (gridStep q k).2 :=
  ⟨Nat.mul_pos (tenPow_pos _) (twoPow_pos _), Nat.mul_pos (tenPow_pos _) (twoPow_pos _)⟩

/-- The length of a grid step as a quotient. -/
theorem cast_gridStep (q k : Int) :
    ((gridStep q k).1 : ℚ) / (gridStep q k).2 = 10 ^ k / 2 ^ (q - 2) := by
  have hTwo : ((twoPow (2 - q).toNat : Nat) : ℚ) / (twoPow (q - 2).toNat : Nat) =
      1 / 2 ^ (q - 2) := by
    have hScaled := cast_scaled 1 1 (q - 2)
    rw [Nat.one_mul, Nat.one_mul, show -(q - 2) = 2 - q by omega] at hScaled
    rw [hScaled, Nat.cast_one, div_one]
  have hTen : ((tenPow k.toNat : Nat) : ℚ) / (tenPow (-k).toNat : Nat) = 10 ^ k := by
    have hDecimal := cast_decimal 1 k
    rwa [Nat.one_mul, Nat.cast_one, one_mul] at hDecimal
  rw [gridStep, Nat.cast_mul, Nat.cast_mul, mul_div_mul_comm, hTwo, hTen, mul_one_div]

/-- The search ends on a grid that has a point in the interval, if one of the grids has. -/
theorem search_spec {steps : Nat} (h : ∃ j < steps, (onGrid tie i (gridStep q (k - j))).isSome) :
    ∃ j < steps, (search tie i q steps k).exponent = k - j ∧
      onGrid tie i (gridStep q (k - j)) = some (search tie i q steps k).coefficient := by
  induction steps generalizing k with
  | zero =>
      obtain ⟨j, hj, _⟩ := h
      exact absurd hj (Nat.not_lt_zero j)
  | succ steps ih =>
      rw [search]
      cases hGrid : onGrid tie i (gridStep q k) with
      | some coefficient => exact ⟨0, Nat.succ_pos steps, by simp, by simpa using hGrid⟩
      | none =>
          obtain ⟨j, hj, hSome⟩ := h
          cases j with
          | zero => simp [hGrid] at hSome
          | succ j =>
              have hNext : ∀ j : Nat, k - ((j + 1 : Nat) : Int) = k - 1 - j := by
                intro j
                push_cast
                ring
              rw [hNext] at hSome
              obtain ⟨j', hj', hExponent, hFound⟩ := ih ⟨j, by omega, hSome⟩
              refine ⟨j' + 1, by omega, ?_, ?_⟩
              · rw [hNext]
                exact hExponent
              · rw [hNext]
                exact hFound

theorem Interval.Mem.bounds {i : Interval} {t : ℚ} (h : i.Mem t) :
    (i.low : ℚ) ≤ t ∧ t ≤ i.high := by
  unfold Mem at h
  split at h
  · exact h
  · exact ⟨h.1.le, h.2.le⟩

/-- Whatever the search ends with does not exceed the interval, nor is its grid coarser than the
first. -/
theorem search_le (hMiddle : i.middle ≤ i.high) (steps : Nat) :
    ((search tie i q steps k).coefficient : ℚ) *
    10 ^ (search tie i q steps k).exponent / 2 ^ (q - 2) ≤
        i.high ∧
      (search tie i q steps k).exponent ≤ k := by
  induction steps generalizing k with
  | zero =>
      refine ⟨?_, Int.le_refl k⟩
      obtain ⟨ha, hb⟩ := gridStep_pos q k
      have hFloor :
          ((i.middle * (gridStep q k).2 / (gridStep q k).1 : Nat) : ℚ) * (gridStep q k).1 ≤
          i.middle * (gridStep q k).2 := by
        exact_mod_cast Nat.div_mul_le_self _ _
      rw [search, mul_div_assoc, ← cast_gridStep, ← mul_div_assoc,
        div_le_iff₀ (by exact_mod_cast hb)]
      refine hFloor.trans ?_
      gcongr
  | succ steps ih =>
      rw [search]
      cases hGrid : onGrid tie i (gridStep q k) with
      | some coefficient =>
          have hMem : i.Mem (coefficient * ((gridStep q k).1 / (gridStep q k).2)) :=
            mem_of_onGrid (gridStep_pos q k).2 hGrid
          rw [cast_gridStep, ← mul_div_assoc] at hMem
          exact ⟨hMem.bounds.2, Int.le_refl k⟩
      | none =>
          obtain ⟨hValue, hExponent⟩ := @ih (k - 1)
          exact ⟨hValue, hExponent.trans (by omega)⟩

end Search

section Shortest

variable {f : BinaryFormat} {tie : Tie} {m num den : Nat} {q : Int}

/-- The lower end of an interval is nearer to the middle for a power of two. -/
theorem cast_around_low (hPos : 0 < m) : ((Interval.around f m q).low : ℚ) =
    if m = twoPow f.fractionBits ∧ f.leastExponent < q then 4 * (m : ℚ) - 1 else 4 * m - 2 := by
  unfold Interval.around
  dsimp only
  split
  · rw [Nat.cast_sub (by omega)]
    push_cast
    rfl
  · rw [Nat.cast_sub (by omega)]
    push_cast
    rfl

theorem cast_around_middle : ((Interval.around f m q).middle : ℚ) = 4 * m := by
  show ((4 * m : Nat) : ℚ) = 4 * m
  push_cast
  rfl

theorem cast_around_high : ((Interval.around f m q).high : ℚ) = 4 * m + 2 := by
  show ((4 * m + 2 : Nat) : ℚ) = 4 * m + 2
  push_cast
  rfl

/-- The lower end of an interval is never further away than the upper one. -/
theorem le_around_low (hPos : 0 < m) : 4 * (m : ℚ) - 2 ≤ (Interval.around f m q).low := by
  rw [cast_around_low hPos]
  split <;> linarith only

/-- The interval of a positive number holds positive numbers only. -/
theorem pos_of_mem_around (hPos : 0 < m) {r : ℚ}
    (hMem : (Interval.around f m q).Mem (r / 2 ^ (q - 2))) :
    0 < r := by
  have hOne : (1 : ℚ) ≤ m := by exact_mod_cast hPos
  have hScaled : 0 < r / 2 ^ (q - 2) := by
    have hLow := (le_around_low hPos).trans hMem.bounds.1
    linarith only [hLow, hOne]
  exact (div_pos_iff_of_pos_right (by positivity)).mp hScaled

/-- Whatever is near enough to the number lies in its interval: a half step, or a quarter for a
power of two. -/
theorem mem_around (hPos : 0 < m) {t : ℚ}
    (h : |t - (Interval.around f m q).middle| <
      if m = twoPow f.fractionBits ∧ f.leastExponent < q then 1 else 2) :
    (Interval.around f m q).Mem t := by
  have hBetween : ((Interval.around f m q).low : ℚ) < t ∧ t < (Interval.around f m q).high := by
    rw [cast_around_low hPos, cast_around_high]
    rw [cast_around_middle] at h
    split at h
    · rename_i hEdge
      rw [if_pos hEdge]
      obtain ⟨hLow, hHigh⟩ := abs_lt.mp h
      constructor <;> linarith only [hLow, hHigh]
    · rename_i hEdge
      rw [if_neg hEdge]
      obtain ⟨hLow, hHigh⟩ := abs_lt.mp h
      constructor <;> linarith only [hLow, hHigh]
  unfold Interval.Mem
  split
  · exact ⟨hBetween.1.le, hBetween.2.le⟩
  · exact hBetween

/-- The interval of a number holds only what is rounded to it. -/
theorem nearest_of_mem (h : f.Has m q) (hPos : 0 < m) (hFraction : 0 < f.fractionBits)
    (hDen : 0 < den) (hMem : (Interval.around f m q).Mem (num / den / 2 ^ (q - 2))) :
    f.nearest num den = f.pattern m q := by
  have hQuarters : (num : ℚ) / den / 2 ^ (q - 2) = 4 * (num / den / 2 ^ q) := by
    rw [zpow_sub₀ two_ne_zero]
    field_simp
    norm_num
  rw [hQuarters] at hMem
  have hLowest := le_around_low (f := f) (q := q) hPos
  have hHighest := cast_around_high (f := f) (m := m) (q := q)
  refine f.nearest_eq_pattern h hPos hFraction hDen ?_ (fun hTie => ?_) fun hEdge hLess => ?_
  · obtain ⟨hLow, hHigh⟩ := hMem.bounds
    rw [abs_le]
    constructor <;> linarith only [hLow, hHigh, hLowest, hHighest]
  · -- The ends belong to the interval only if the significand is even.
    by_contra hOdd
    have hOpen : (Interval.around f m q).closed = false := beq_false_of_ne hOdd
    rw [Interval.Mem, hOpen, if_neg (by decide)] at hMem
    have hStrict : |(m : ℚ) - num / den / 2 ^ q| < 1 / 2 := by
      rw [abs_lt]
      constructor <;> linarith only [hMem.1, hMem.2, hLowest, hHighest]
    exact hStrict.ne hTie
  · have hLow := hMem.bounds.1
    rw [cast_around_low hPos, if_pos ⟨hEdge, hLess⟩] at hLow
    linarith only [hLow]

/-- The shortest decimal is a point of a grid that was searched, and lies in the interval of the
number. -/
theorem shortest_spec (hPos : 0 < m)
    (hFine : ∃ j < f.fractionBits + 3, (10 : ℚ) ^ (coarsest m q - j) < 2 ^ (q - 2)) :
    ∃ j < f.fractionBits + 3, (shortest f tie m q).exponent = coarsest m q - j ∧
      onGrid tie (Interval.around f m q) (gridStep q (coarsest m q - j)) =
        some (shortest f tie m q).coefficient := by
  obtain ⟨j, hj, hStep⟩ := hFine
  obtain ⟨ha, hb⟩ := gridStep_pos q (coarsest m q - j)
  have hBelow :
      ((gridStep q (coarsest m q - j)).1 : ℚ) / (gridStep q (coarsest m q - j)).2 < 1 := by
    rwa [cast_gridStep, div_lt_one (by positivity)]
  refine search_spec ⟨j, hj, isSome_onGrid (fun t ht => mem_around hPos ?_) ha hb hBelow⟩
  split
  · exact ht
  · exact ht.trans one_lt_two

end Shortest

end Decimal

end PointStyle
