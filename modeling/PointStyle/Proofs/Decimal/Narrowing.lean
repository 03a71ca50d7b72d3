import Mathlib.Tactic.NormNum
import PointStyle.Proofs.Decimal.Shortest
import PointStyle.Proofs.Single

/-! Reading the decimal of a single as a double. The decimal is rounded twice on the way back, to a
double and then to a single. The first rounding can do harm only if the decimal lies next to the
midpoint of two singles, and multiples of powers of ten keep away from these midpoints: up to one,
the only single is the exception that is read back as its neighbour. -/
namespace PointStyle

namespace Decimal

section Gaps

/-- The last of the fractions that approach `n / d` whose denominator keeps to the limit. -/
def approach (limit : Nat) : Nat → Nat → Nat → Nat × Nat → Nat × Nat → Nat × Nat
  | 0, _, _, _, last => last
  | fuel + 1, n, d, before, last =>
    let next := (n / d * last.1 + before.1, n / d * last.2 + before.2)
    if d = 0 ∨ limit < next.2 then last
    else approach limit fuel d (n % d) last next

/-- The decimal places of the finest grid whose step is `2 ^ -n` at least. -/
def places (n : Nat) : Nat := n * 30103 / 100000

/-- A multiple of the grid step that lies next to an odd multiple of `2 ^ -n`, as `(steps, odd)`. -/
def closeCalls (n : Nat) : List (Nat × Nat) :=
  if n = 108 then [(7038531, 22841339)] else if n = 107 then [(14077062, 22841339)] else []

/-- The fraction `p / d` shows that the multiples of the grid step keep away from the odd multiples
of `2 ^ -n`: it is so near to their ratio that only its own multiples can come close, and these are
even, too large, not close enough, or listed. -/
def IsGuard (n : Nat) (guard : Nat × Nat) : Prop :=
  let a := twoPow n
  let b := tenPow (places n)
  let miss := ((guard.1 * a : Int) - guard.2 * b).natAbs
  Nat.gcd guard.1 guard.2 = 1 ∧ twoPow 54 * miss + guard.2 * b < twoPow 29 * a ∧
    (guard.2 % 2 = 0 ∨ twoPow 25 ≤ guard.2 ∨ b < twoPow 29 * miss ∨
      (guard ∈ closeCalls n ∧ twoPow 25 ≤ 2 * guard.2))

instance (n : Nat) (guard : Nat × Nat) : Decidable (IsGuard n guard) := by
  unfold IsGuard
  infer_instance

/-- For every exponent of singles below one the approximation by continued fractions finds a
guard. -/
theorem isGuard_approach : ∀ n, n < 151 → 25 ≤ n →
    IsGuard n (approach (twoPow 27) 100 (tenPow (places n)) (twoPow n) (0, 1) (1, 0)) := by
  decide +kernel

variable {n c odd : Nat} {guard : Nat × Nat}

/-- A fraction without a denominator would miss by more than is allowed. -/
theorem IsGuard.denominator_pos (h : IsGuard n guard) : 0 < guard.2 := by
  obtain ⟨p, d⟩ := guard
  obtain ⟨hCoprime, hSharp, -⟩ := h
  simp only at hSharp hCoprime ⊢
  refine Nat.pos_of_ne_zero fun hZero => ?_
  subst hZero
  have hp : p = 1 := by simpa using hCoprime
  subst hp
  have hMiss :
      ((1 : Nat) * twoPow n - (0 : Nat) * tenPow (places n) : Int).natAbs = twoPow n := by omega
  rw [hMiss, Nat.zero_mul, Nat.add_zero] at hSharp
  exact absurd (Nat.lt_of_mul_lt_mul_right hSharp) (by decide)

/-- What comes close has the ratio of such a fraction: two ratios that differ, differ by more. -/
theorem cross_eq_of_close (h : IsGuard n guard) (hOdd : odd < twoPow 25)
    (hClose : twoPow 29 * ((c * twoPow n : Int) - odd * tenPow (places n)).natAbs ≤
      tenPow (places n)) : odd * guard.1 = c * guard.2 := by
  obtain ⟨p, d⟩ := guard
  obtain ⟨-, hSharp, -⟩ := h
  simp only at hSharp ⊢
  generalize twoPow n = a at *
  generalize tenPow (places n) = b at *
  generalize hMiss : (p * a : Int) - d * b = miss at *
  generalize hGap : (c * a : Int) - odd * b = gap at *
  have hCross : (a : Int) * (odd * p - c * d) = odd * miss - d * gap := by
    rw [← hMiss, ← hGap]
    ring
  have hBound : a * ((odd * p : Int) - c * d).natAbs ≤ odd * miss.natAbs + d * gap.natAbs := by
    have hAbs := congrArg Int.natAbs hCross
    rw [Int.natAbs_mul, Int.natAbs_natCast] at hAbs
    rw [hAbs]
    refine (Int.natAbs_sub_le _ _).trans_eq ?_
    rw [Int.natAbs_mul, Int.natAbs_mul, Int.natAbs_natCast, Int.natAbs_natCast]
  have hLess : twoPow 29 * (a * ((odd * p : Int) - c * d).natAbs) < twoPow 29 * a := by
    calc twoPow 29 * (a * ((odd * p : Int) - c * d).natAbs)
        ≤ twoPow 29 * (odd * miss.natAbs + d * gap.natAbs) := Nat.mul_le_mul_left _ hBound
      _ = twoPow 29 * odd * miss.natAbs + d * (twoPow 29 * gap.natAbs) := by ring
      _ ≤ twoPow 29 * twoPow 25 * miss.natAbs + d * b :=
          Nat.add_le_add (Nat.mul_le_mul_right _ (Nat.mul_le_mul_left _ hOdd.le))
            (Nat.mul_le_mul_left _ hClose)
      _ < twoPow 29 * a := hSharp
  have hZero : ((odd * p : Int) - c * d).natAbs = 0 := by
    have hOne : a * ((odd * p : Int) - c * d).natAbs < a * 1 := by
      rw [Nat.mul_one]
      exact Nat.lt_of_mul_lt_mul_left hLess
    exact Nat.lt_one_iff.mp (Nat.lt_of_mul_lt_mul_left hOne)
  have hInt : (odd * p : Int) = c * d := by omega
  exact_mod_cast hInt

/-- Only the multiples of such a fraction come close. -/
theorem multiple_of_close (h : IsGuard n guard) (hOdd : odd < twoPow 25)
    (hClose : twoPow 29 * ((c * twoPow n : Int) - odd * tenPow (places n)).natAbs ≤
      tenPow (places n)) : ∃ j, odd = j * guard.2 ∧ c = j * guard.1 := by
  have hEq := cross_eq_of_close h hOdd hClose
  obtain ⟨j, rfl⟩ : guard.2 ∣ odd :=
    (Nat.Coprime.symm h.1).dvd_of_dvd_mul_right ⟨c, by rw [hEq, Nat.mul_comm]⟩
  refine ⟨j, Nat.mul_comm .., Nat.eq_of_mul_eq_mul_right h.denominator_pos ?_⟩
  rw [← hEq]
  ring

/-- The multiples of the grid step keep away from the odd multiples of `2 ^ -n`, but for the close
calls. -/
theorem far_or_closeCall (hLeast : 25 ≤ n) (hMost : n < 151) (hParity : odd % 2 = 1)
    (hOdd : odd < twoPow 25) :
    tenPow (places n) <
        twoPow 29 * ((c * twoPow n : Int) - odd * tenPow (places n)).natAbs ∨
      (c, odd) ∈ closeCalls n := by
  refine or_iff_not_imp_left.mpr fun hClose => ?_
  rw [Nat.not_lt] at hClose
  have hGuard := isGuard_approach n hMost hLeast
  generalize approach (twoPow 27) 100 (tenPow (places n)) (twoPow n) (0, 1) (1, 0) = guard at hGuard
  obtain ⟨p, d⟩ := guard
  obtain ⟨j, rfl, rfl⟩ := multiple_of_close hGuard hOdd hClose
  simp only at hParity hOdd hClose
  have hPos : 0 < j := by
    rcases Nat.eq_zero_or_pos j with rfl | hPos
    · simp at hParity
    · exact hPos
  have hLarge : d ≤ j * d := Nat.le_mul_of_pos_left d hPos
  rcases hGuard.2.2 with hEven | hTooLarge | hFar | ⟨hListed, hTwice⟩
  · have hProduct : j * d % 2 = 0 := by rw [Nat.mul_mod, hEven, Nat.mul_zero, Nat.zero_mod]
    exact absurd hProduct (by omega)
  · exact absurd hTooLarge (by simp only; omega)
  · -- A multiple misses by as much as the fraction does, or more.
    exfalso
    have hFactor :
        (((j * p : Nat) : Int) * twoPow n - ((j * d : Nat) : Int) * tenPow (places n)).natAbs =
        j * ((p * twoPow n : Int) - d * tenPow (places n)).natAbs := by
      rw [← Int.natAbs_natCast j, ← Int.natAbs_mul, Int.natAbs_natCast]
      congr 1
      push_cast
      ring
    rw [hFactor] at hClose
    have hMore := Nat.mul_le_mul_left (twoPow 29)
      (Nat.le_mul_of_pos_left ((p * twoPow n : Int) - d * tenPow (places n)).natAbs hPos)
    simp only at hFar
    omega
  · have hOne : j = 1 := by
      by_contra hNe
      have hTwo : 2 * d ≤ j * d := Nat.mul_le_mul_right d (by omega)
      simp only at hTwice
      omega
    rw [hOne, Nat.one_mul, Nat.one_mul]
    exact hListed

/-- The gap between two such multiples, in steps of `2 ^ -n`. -/
theorem gap_lt (h : tenPow (places n) <
      twoPow 29 * ((c * twoPow n : Int) - odd * tenPow (places n)).natAbs) :
    1 / 2 ^ 29 < |(c : ℚ) * (2 ^ n / 10 ^ places n) - odd| := by
  have hDen : (0 : ℚ) < 10 ^ places n := by positivity
  have hGap : (c : ℚ) * (2 ^ n / 10 ^ places n) - odd =
      ((c * twoPow n - odd * tenPow (places n) : Int) : ℚ) / 10 ^ places n := by
    push_cast
    rw [cast_twoPow, cast_tenPow]
    field_simp
  rw [hGap, abs_div, abs_of_pos hDen, lt_div_iff₀ hDen, ← Int.cast_abs, Int.abs_eq_natAbs,
    ← cast_tenPow, one_div, inv_mul_lt_iff₀ (by positivity), ← cast_twoPow]
  exact_mod_cast h

end Gaps

section Midpoints

variable {m : Nat} {q : Int}

/-- The powers of two and ten that the grids of singles below one are compared by. -/
theorem twoPow_lt_tenPow : ∀ n, n < 151 →
    twoPow n < tenPow (places n + 1) ∧
      twoPow (n + 2) < tenPow (23 - (24 - (n : Int)) * 30103 / 100000).toNat := by
  decide +kernel

theorem zpow_neg_lt {a b : Nat} (h : twoPow a < tenPow b) :
    (10 : ℚ) ^ (-(b : Int)) < 2 ^ (-(a : Int)) := by
  rw [zpow_neg, zpow_neg, zpow_natCast, zpow_natCast]
  refine inv_strictAnti₀ (by positivity) ?_
  rw [← cast_twoPow, ← cast_tenPow]
  exact_mod_cast h

/-- The search for the decimal of a single ends on a grid that it finds a point on. -/
theorem shortest_single (h : BinaryFormat.single.Has m q) (hPos : 0 < m) (hMost : q ≤ 0) :
    let d := shortest .single .up m q
    (-100 : Int) ≤ d.exponent ∧
      onGrid .up (Interval.around .single m q) (gridStep q d.exponent) = some d.coefficient := by
  have hLeast := h.least
  have hBound := h.bound
  rw [BinaryFormat.single_leastExponent] at hLeast
  rw [BinaryFormat.single_fraction] at hBound
  have hLog : m.log2 < 24 := (Nat.log2_lt hPos.ne').mpr hBound
  have hFine :
      ∃ j < BinaryFormat.single.fractionBits + 3, (10 : ℚ) ^ (coarsest m q - j) < 2 ^ (q - 2) := by
    refine ⟨25, by decide, ?_⟩
    have hPower := zpow_neg_lt (twoPow_lt_tenPow (-q).toNat (by omega)).2
    have hTwo : -(((-q).toNat + 2 : Nat) : Int) = q - 2 := by omega
    rw [hTwo] at hPower
    refine lt_of_le_of_lt (zpow_le_zpow_right₀ (by norm_num) ?_) hPower
    unfold coarsest
    omega
  obtain ⟨j, hj, hExponent, hFound⟩ := @shortest_spec .single .up m q hPos hFine
  rw [← hExponent] at hFound
  refine ⟨?_, hFound⟩
  have hSteps : BinaryFormat.single.fractionBits + 3 = 26 := rfl
  rw [hExponent]
  unfold coarsest
  omega

/-- On a coarse grid the decimal is a number of steps of the finest coarse grid. -/
theorem far_on_coarse_grid {c n odd : Nat} {k : Int} (hLeast : 25 ≤ n) (hMost : n < 151)
    (hParity : odd % 2 = 1) (hOdd : odd < twoPow 25) (hCoarse : -(places n : Int) ≤ k) :
    1 / 2 ^ 29 < |(c : ℚ) * (10 ^ k * 2 ^ n) - odd| ∨
      (c * tenPow (k + places n).toNat, odd) ∈ closeCalls n := by
  have hPower : (10 : ℚ) ^ k = 10 ^ (k + places n).toNat / 10 ^ places n := by
    rw [← zpow_natCast, ← zpow_natCast, ← zpow_sub₀ (by norm_num), Int.toNat_of_nonneg (by omega),
      add_sub_cancel_right]
  refine (far_or_closeCall hLeast hMost hParity hOdd).imp_left fun hFar => ?_
  refine (gap_lt hFar).trans_eq ?_
  rw [hPower, Nat.cast_mul, cast_tenPow]
  congr 2
  ring

/-- On a finer grid the decimal is the nearest to the single, which is not next to a midpoint. -/
theorem far_on_fine_grid {c n : Nat} {k : Int} (hn : (n : Int) = 1 - q) (hMost : n < 151)
    (hPos : 0 < m) (hEdge : m ≠ twoPow BinaryFormat.single.fractionBits)
    (hFine : k < -(places n : Int))
    (hGrid : onGrid .up (Interval.around .single m q) (gridStep q k) = some c) :
    |(c : ℚ) * (10 ^ k * 2 ^ n) - 2 * m| < 1 / 2 := by
  have hUnit : (2 : ℚ) ^ (q - 2) = (2 * 2 ^ n)⁻¹ := by
    rw [show q - 2 = -((n + 1 : Nat) : Int) by omega, zpow_neg, zpow_natCast, pow_succ']
  have hStep : ((gridStep q k).1 : ℚ) / (gridStep q k).2 = 2 * (10 ^ k * 2 ^ n) := by
    rw [cast_gridStep, hUnit, div_inv_eq_mul]
    ring
  have hSmall : (10 : ℚ) ^ k * 2 ^ n < 1 := by
    have hPower := zpow_neg_lt (twoPow_lt_tenPow n hMost).1
    rw [zpow_neg _ (n : Int), zpow_natCast] at hPower
    rw [← lt_div_iff₀ (by positivity), one_div]
    exact lt_of_le_of_lt (zpow_le_zpow_right₀ (by norm_num) (by omega)) hPower
  obtain ⟨ha, hb⟩ := gridStep_pos q k
  have hWide : ∀ t : ℚ, |t - (Interval.around .single m q).middle| < 2 →
      (Interval.around .single m q).Mem t := by
    intro t ht
    refine mem_around hPos ?_
    rwa [if_neg (fun hBoth => hEdge hBoth.1)]
  have hClose := close_of_onGrid hWide ha hb (by rw [hStep]; linarith only [hSmall]) hGrid
  rw [hStep, cast_around_middle] at hClose
  have hTwice :
      (c : ℚ) * (2 * (10 ^ k * 2 ^ n)) - 4 * m = 2 * (c * (10 ^ k * 2 ^ n) - 2 * m) := by ring
  rw [hTwice, abs_mul, abs_of_pos two_pos] at hClose
  linarith only [hClose, hSmall]

/-- What lies within half a unit of an even number does not come closer to the odd ones next to
it. -/
theorem half_lt_of_near {x : ℚ} {odd : Nat} (hPos : 0 < m) (hNear : |x - 2 * m| < 1 / 2)
    (hOdd : odd = 2 * m - 1 ∨ odd = 2 * m + 1) : 1 / 2 < |x - odd| := by
  obtain ⟨hLow, hHigh⟩ := abs_lt.mp hNear
  rw [lt_abs]
  rcases hOdd with rfl | rfl
  · left
    rw [Nat.cast_sub (by omega)]
    push_cast
    linarith only [hLow]
  · right
    push_cast
    linarith only [hHigh]

/-- One of the close calls is the decimal of the exception. The other is no decimal of a single:
that of the single next to it is another one. -/
theorem notMem_closeCalls {n odd : Nat} (hn : (n : Int) = 1 - q) (hParity : m % 2 = 1)
    (hNot : ¬ (m = 11420669 ∧ q = -107)) (hOdd : odd = 2 * m - 1 ∨ odd = 2 * m + 1) :
    let d := shortest .single .up m q
    (d.coefficient * tenPow (d.exponent + places n).toNat, odd) ∉ closeCalls n := by
  intro d hCall
  unfold closeCalls at hCall
  split at hCall
  · rw [List.mem_singleton, Prod.mk.injEq] at hCall
    exact hNot ⟨by omega, by omega⟩
  · split at hCall
    · rename_i hEdge
      rw [List.mem_singleton, Prod.mk.injEq] at hCall
      have hm : m = 11420669 := by omega
      have hq : q = -106 := by omega
      have hd : d = ⟨14077061, -32⟩ := by
        show shortest .single .up m q = _
        rw [hm, hq]
        decide
      rw [hd, hEdge] at hCall
      exact absurd hCall.1 (by decide)
    · cases hCall

/-- The decimal of a single with an odd significand keeps away from both midpoints to its
neighbours, where `odd` counts half steps. -/
theorem far_from_midpoint (h : BinaryFormat.single.Has m q) (hMost : q ≤ -24) (hParity : m % 2 = 1)
    (hNot : ¬ (m = 11420669 ∧ q = -107)) {odd : Nat} (hOdd : odd = 2 * m - 1 ∨ odd = 2 * m + 1) :
    let d := shortest .single .up m q
    1 / 2 ^ 29 < |(d.coefficient : ℚ) * 10 ^ d.exponent / 2 ^ (q - 1) - odd| := by
  intro d
  have hLeast := h.least
  have hBound := h.bound
  rw [BinaryFormat.single_leastExponent] at hLeast
  rw [BinaryFormat.single_fraction] at hBound
  have hGrid :
      onGrid .up (Interval.around .single m q) (gridStep q d.exponent) = some d.coefficient :=
    (shortest_single h (by omega) (by omega)).2
  obtain ⟨n, hn⟩ : ∃ n : Nat, (n : Int) = 1 - q := ⟨(1 - q).toNat, by omega⟩
  have hUnit : (d.coefficient : ℚ) * 10 ^ d.exponent / 2 ^ (q - 1) =
      d.coefficient * (10 ^ d.exponent * 2 ^ n) := by
    rw [show q - 1 = -(n : Int) by omega, zpow_neg, zpow_natCast, div_inv_eq_mul, mul_assoc]
  rw [hUnit]
  rcases lt_or_ge d.exponent (-(places n : Int)) with hFine | hCoarse
  · have hNear := far_on_fine_grid hn (by omega) (by omega)
      (by rw [BinaryFormat.single_fraction]; omega) hFine hGrid
    exact lt_trans (by norm_num) (half_lt_of_near (by omega) hNear hOdd)
  · have hRange : odd < twoPow 25 := by
      have hPower : twoPow 25 = 33554432 := by decide
      omega
    exact (far_on_coarse_grid (by omega) (by omega) (by omega) hRange hCoarse).resolve_right
      (notMem_closeCalls hn hParity hNot hOdd)

/-- The decimal of a single lies in the interval of the single. -/
theorem mem_shortest_single (h : BinaryFormat.single.Has m q) (hPos : 0 < m) (hMost : q ≤ 0) :
    let d := shortest .single .up m q
    (Interval.around .single m q).Mem (d.coefficient * 10 ^ d.exponent / 2 ^ (q - 2)) := by
  intro d
  have hGrid : (Interval.around .single m q).Mem
      (d.coefficient * ((gridStep q d.exponent).1 / (gridStep q d.exponent).2)) :=
    mem_of_onGrid (gridStep_pos q d.exponent).2 (shortest_single h hPos hMost).2
  rwa [cast_gridStep, mul_div_assoc'] at hGrid

/-- If the significand is odd, the ends of the interval are open, and the decimal is not next to
them. -/
theorem shortest_single_far (h : BinaryFormat.single.Has m q) (hMost : q ≤ -24)
    (hParity : m % 2 = 1) (hNot : ¬ (m = 11420669 ∧ q = -107)) :
    let d := shortest .single .up m q
    let t : ℚ := d.coefficient * 10 ^ d.exponent / 2 ^ (q - 2)
    4 * (m : ℚ) - 2 + 1 / 2 ^ 28 < t ∧ t < 4 * m + 2 - 1 / 2 ^ 28 := by
  intro d t
  have hPos : 0 < m := by omega
  have hHalf : (d.coefficient : ℚ) * 10 ^ d.exponent / 2 ^ (q - 1) = t / 2 := by
    show _ = (d.coefficient : ℚ) * 10 ^ d.exponent / 2 ^ (q - 2) / 2
    rw [div_div, ← zpow_add_one₀ two_ne_zero]
    congr 2
    ring
  have hBelow : 1 / 2 ^ 29 < |t / 2 - ((2 * m - 1 : Nat) : ℚ)| :=
    hHalf ▸ far_from_midpoint h hMost hParity hNot (.inl rfl)
  have hAbove : 1 / 2 ^ 29 < |t / 2 - ((2 * m + 1 : Nat) : ℚ)| :=
    hHalf ▸ far_from_midpoint h hMost hParity hNot (.inr rfl)
  obtain ⟨hLow, hHigh⟩ := (mem_shortest_single h hPos (by omega)).bounds
  have hEdge :
      ¬ (m = twoPow BinaryFormat.single.fractionBits ∧ BinaryFormat.single.leastExponent < q) := by
    rw [BinaryFormat.single_fraction]
    omega
  rw [cast_around_low hPos, if_neg hEdge] at hLow
  rw [cast_around_high] at hHigh
  rw [Nat.cast_sub (by omega)] at hBelow
  push_cast at hBelow hAbove
  rw [abs_of_nonneg (by linarith only [hLow])] at hBelow
  rw [abs_of_nonpos (by linarith only [hHigh])] at hAbove
  norm_num at hBelow hAbove ⊢
  constructor <;> linarith only [hBelow, hAbove]

end Midpoints

section Reading

variable {m num den : Nat} {q : Int} {negative : Bool}

/-- Rounding to steps of `2 ^ -g` keeps a number in an interval with whole ends, if it is not next
to an end that is open. -/
theorem mem_roundHalfEven {i : Interval} {t : ℚ} {g : Nat} (hDen : 0 < den) (hFine : 27 ≤ g)
    (hScaled : (num : ℚ) / den = t * 2 ^ g) (hMem : i.Mem t)
    (hFar : i.closed = false → i.low + 1 / 2 ^ 28 < t ∧ t < i.high - 1 / 2 ^ 28) :
    i.Mem (roundHalfEven num den / 2 ^ g) := by
  have hUnit : (0 : ℚ) < 2 ^ g := by positivity
  unfold Interval.Mem
  split
  · obtain ⟨hLow, hHigh⟩ := hMem.bounds
    rw [le_div_iff₀ hUnit, div_le_iff₀ hUnit, ← cast_twoPow]
    constructor
    · have hBound : i.low * twoPow g ≤ roundHalfEven num den := by
        apply le_roundHalfEven hDen
        rw [hScaled, Nat.cast_mul, cast_twoPow]
        gcongr
      exact_mod_cast hBound
    · have hBound : roundHalfEven num den ≤ i.high * twoPow g := by
        apply roundHalfEven_le hDen
        rw [hScaled, Nat.cast_mul, cast_twoPow]
        gcongr
      exact_mod_cast hBound
  · rename_i hOpen
    obtain ⟨hLow, hHigh⟩ := hFar (by simpa using hOpen)
    obtain ⟨hRoundLow, hRoundHigh⟩ := abs_le.mp (@roundHalfEven_spec num den hDen).1
    have hGap : (1 : ℚ) / 2 ≤ 1 / 2 ^ 28 * 2 ^ g := by
      calc (1 : ℚ) / 2 = 1 / 2 ^ 28 * 2 ^ 27 := by norm_num
        _ ≤ 1 / 2 ^ 28 * 2 ^ g := by
            gcongr
            exact one_le_two
    have hLowScaled := mul_lt_mul_of_pos_right hLow hUnit
    have hHighScaled := mul_lt_mul_of_pos_right hHigh hUnit
    rw [lt_div_iff₀ hUnit, div_lt_iff₀ hUnit]
    rw [hScaled] at hRoundLow hRoundHigh
    rw [add_mul] at hLowScaled
    rw [sub_mul] at hHighScaled
    constructor <;> linarith only [hLowScaled, hHighScaled, hRoundLow, hRoundHigh, hGap]

/-- A number in the interval of a single is rounded to a double in that interval. -/
theorem decode_nearest_double (h : BinaryFormat.single.Has m q) (hPos : 0 < m) (hDen : 0 < den)
    (hMem : (Interval.around .single m q).Mem (num / den / 2 ^ (q - 2)))
    (hFar : m % 2 = 1 → 4 * (m : ℚ) - 2 + 1 / 2 ^ 28 < (num : ℚ) / den / 2 ^ (q - 2) ∧
      (num : ℚ) / den / 2 ^ (q - 2) < 4 * m + 2 - 1 / 2 ^ 28) :
    ∃ m' q', BinaryFormat.double.decode
        (BinaryFormat.double.signed negative (BinaryFormat.double.nearest num den)) =
          .finite negative m' q' ∧
      (Interval.around .single m q).Mem (m' * 2 ^ q' / 2 ^ (q - 2)) := by
  have hNum : 0 < num := by
    have hQuotient :=
      (div_pos_iff_of_pos_right (by exact_mod_cast hDen)).mp (pos_of_mem_around hPos hMem)
    exact_mod_cast hQuotient
  obtain ⟨e, hSteps⟩ := BinaryFormat.double.exists_steps hNum hDen
  have hFine : e ≤ q - 29 := h.steps_le hSteps (hMem.bounds.2.trans_eq cast_around_high)
  obtain ⟨g, hg⟩ : ∃ g : Nat, (g : Int) = q - 2 - e := ⟨(q - 2 - e).toNat, by omega⟩
  have hUnit : (2 : ℚ) ^ e = 2 ^ (q - 2) / 2 ^ g := by
    rw [← zpow_natCast, hg, ← zpow_sub₀ two_ne_zero]
    congr 1
    ring
  have hScaledDen : 0 < den * twoPow e.toNat := Nat.mul_pos hDen (twoPow_pos _)
  have hMostSteps : roundHalfEven (num * twoPow (-e).toNat) (den * twoPow e.toNat) ≤
      2 * twoPow BinaryFormat.double.fractionBits := by
    apply roundHalfEven_le hScaledDen
    rw [cast_scaled]
    push_cast
    exact hSteps.below.le
  obtain ⟨m', q', hDecode, hValue⟩ :=
    BinaryFormat.decode_nearest hNum hDen hSteps (h.pattern_lt hFine hMostSteps)
  refine ⟨m', q', hDecode, ?_⟩
  have hRounded : (m' : ℚ) * 2 ^ q' / 2 ^ (q - 2) =
      roundHalfEven (num * twoPow (-e).toNat) (den * twoPow e.toNat) / 2 ^ g := by
    rw [hValue, hUnit]
    field_simp
  rw [hRounded]
  refine mem_roundHalfEven hScaledDen (by omega) ?_ hMem fun hOpen => ?_
  · rw [cast_scaled, hUnit]
    field_simp
  · have hParity : m % 2 = 1 := by
      have hOdd : m % 2 ≠ 0 := ne_of_beq_false hOpen
      omega
    rw [cast_around_low hPos, if_neg ?_, cast_around_high]
    · exact hFar hParity
    · rw [BinaryFormat.single_fraction]
      omega

/-- Decimals of moderate exponents are rounded as quotients. -/
theorem nearestDecimal_eq (f : BinaryFormat) {c : Nat} {k : Int} (hPos : 0 < c) (hLeast : -100 ≤ k)
    (hMost : k ≤ 0) (hWide : 100 ≤ twoPow f.exponentBits) :
    f.nearestDecimal negative c k =
      f.signed negative (f.nearest (c * tenPow k.toNat) (tenPow (-k).toNat)) := by
  rw [BinaryFormat.nearestDecimal, if_neg (by omega), if_neg (by omega), if_neg (by omega)]

/-- What lies in the interval of a single below one is positive and below one. -/
theorem unit_of_mem (h : BinaryFormat.single.Has m q) (hPos : 0 < m) (hMost : q ≤ -24) {r : ℚ}
    (hMem : (Interval.around .single m q).Mem (r / 2 ^ (q - 2))) : 0 < r ∧ r < 1 := by
  refine ⟨pos_of_mem_around hPos hMem, ?_⟩
  have hHigh := hMem.bounds.2
  have hTop := h.quarters_lt
  rw [cast_around_high, div_le_iff₀ (by positivity)] at hHigh
  calc r ≤ (4 * m + 2) * 2 ^ (q - 2) := hHigh
    _ < 2 ^ (26 : Int) * 2 ^ (q - 2) := by gcongr
    _ = 2 ^ (26 + (q - 2)) := (zpow_add₀ two_ne_zero _ _).symm
    _ ≤ 1 := zpow_le_one_of_nonpos₀ one_le_two (by omega)

/-- The decimal of a single below one has places after the point. -/
theorem shortest_single_places (h : BinaryFormat.single.Has m q) (hPos : 0 < m) (hMost : q ≤ -24) :
    let d := shortest .single .up m q
    0 < d.coefficient ∧ d.exponent < 0 := by
  intro d
  obtain ⟨hValuePos, hValueLess⟩ := unit_of_mem h hPos hMost (mem_shortest_single h hPos (by omega))
  have hCoefficient : 0 < d.coefficient := by
    rcases Nat.eq_zero_or_pos d.coefficient with hZero | hCoefficient
    · have hNone : (0 : ℚ) < d.coefficient * 10 ^ d.exponent := hValuePos
      rw [hZero, Nat.cast_zero, zero_mul] at hNone
      exact absurd hNone (lt_irrefl _)
    · exact hCoefficient
  refine ⟨hCoefficient, ?_⟩
  by_contra hNot
  have hOne : (1 : ℚ) ≤ d.coefficient := by exact_mod_cast hCoefficient
  have hPower : (1 : ℚ) ≤ 10 ^ d.exponent := one_le_zpow₀ (by norm_num) (by omega)
  exact absurd hValueLess (not_lt.mpr (one_le_mul_of_one_le_of_one_le hOne hPower))

/-- The decimal of a single below one, but for the exception, is read as a double that is positive,
below one, and nearest to that single. -/
theorem narrow_shortest (h : BinaryFormat.single.Has m q) (hPos : 0 < m) (hMost : q ≤ -24)
    (hNot : ¬ (m = 11420669 ∧ q = -107)) :
    let d := shortest .single .up m q
    ∃ m' q', Datum.ofDouble (doubleOfDecimal negative d.coefficient d.exponent) =
        .finite negative m' q' ∧
      0 < (m' : ℚ) * 2 ^ q' ∧ (m' : ℚ) * 2 ^ q' < 1 ∧
      BinaryFormat.single.encode (.finite negative m' q') =
        BinaryFormat.single.signed negative (BinaryFormat.single.pattern m q) := by
  intro d
  have hMem : (Interval.around .single m q).Mem (d.coefficient * 10 ^ d.exponent / 2 ^ (q - 2)) :=
    mem_shortest_single h hPos (by omega)
  have hFar : m % 2 = 1 →
    4 * (m : ℚ) - 2 + 1 / 2 ^ 28 < d.coefficient * 10 ^ d.exponent / 2 ^ (q - 2) ∧
      d.coefficient * 10 ^ d.exponent / 2 ^ (q - 2) < 4 * (m : ℚ) + 2 - 1 / 2 ^ 28 :=
    fun hParity => shortest_single_far h hMost hParity hNot
  obtain ⟨hCoefficient, hPlaces⟩ := shortest_single_places h hPos hMost
  rw [← cast_decimal] at hMem hFar
  obtain ⟨m', q', hDecode, hDouble⟩ := decode_nearest_double h hPos (tenPow_pos _) hMem hFar
  obtain ⟨hDoublePos, hDoubleLess⟩ := unit_of_mem h hPos hMost hDouble
  refine ⟨m', q', ?_, hDoublePos, hDoubleLess, ?_⟩
  · rw [doubleOfDecimal,
      nearestDecimal_eq .double hCoefficient (shortest_single h hPos (by omega)).1
      hPlaces.le (by decide)]
    exact Datum.ofDouble_of_decode hDecode
  · rw [← cast_binary] at hDouble
    rw [BinaryFormat.encode, nearest_of_mem h hPos (by decide) (twoPow_pos _) hDouble]

end Reading

end Decimal

end PointStyle
