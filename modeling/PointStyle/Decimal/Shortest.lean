import PointStyle.Binary

/-!
The shortest decimal that reads back as a given binary number. A finite nonzero magnitude
`m * 2 ^ q` is what every real number in an interval around it rounds to. The answer is the
coarsest power-of-ten grid with a point in that interval, and on that grid the point nearest to
the number.
-/
namespace PointStyle

/-- A decimal magnitude `coefficient * 10 ^ exponent`. -/
structure Decimal where
  coefficient : Nat
  exponent : Int
deriving DecidableEq, Repr

namespace Decimal

/-- Which of two equally near decimals is taken. -/
inductive Tie where
  | up
  | even
deriving DecidableEq, Repr

/-- The reals that round to one magnitude, in quarters of its last place `2 ^ q`.
The ends belong to it exactly when the significand is even. -/
structure Interval where
  low : Nat
  middle : Nat
  high : Nat
  closed : Bool
deriving DecidableEq, Repr

/-- The interval of `m * 2 ^ q`. Below a power of two the neighbours are twice as dense. -/
def Interval.around (f : BinaryFormat) (m : Nat) (q : Int) : Interval where
  low := if m = twoPow f.fractionBits ∧ f.leastExponent < q then 4 * m - 1 else 4 * m - 2
  middle := 4 * m
  high := 4 * m + 2
  closed := m % 2 == 0

/-- Whether the fraction `num / den` lies in the interval. -/
def Interval.contains (i : Interval) (num den : Nat) : Bool :=
  if i.closed then decide (i.low * den ≤ num) && decide (num ≤ i.high * den)
  else decide (i.low * den < num) && decide (num < i.high * den)

/-- The length of the grid step `10 ^ k` in quarters of `2 ^ q`, as a fraction. -/
def gridStep (q k : Int) : Nat × Nat :=
  (tenPow k.toNat * twoPow (2 - q).toNat, tenPow (-k).toNat * twoPow (q - 2).toNat)

/-- The multiple of the grid step nearest to the middle of the interval among those inside it.
Only the two neighbours of the middle are looked at: if any multiple is inside, one of them is. -/
def onGrid (tie : Tie) (i : Interval) (step : Nat × Nat) : Option Nat :=
  let target := i.middle * step.2
  let below := target / step.1
  let downIn := i.contains (below * step.1) step.2
  let upIn := i.contains ((below + 1) * step.1) step.2
  if downIn && upIn then
    let remainder := target % step.1
    if 2 * remainder < step.1 then some below
    else if step.1 < 2 * remainder then some (below + 1)
    else match tie with
      | .up => some (below + 1)
      | .even => some (below + below % 2)
  else if downIn then some below
  else if upIn then some (below + 1)
  else none

/-- Tries the grids `10 ^ k`, `10 ^ (k - 1)`, ... in turn. -/
def search (tie : Tie) (i : Interval) (q : Int) : Nat → Int → Decimal
  | 0, k => ⟨i.middle * (gridStep q k).2 / (gridStep q k).1, k⟩
  | steps + 1, k =>
    match onGrid tie i (gridStep q k) with
    | some coefficient => ⟨coefficient, k⟩
    | none => search tie i q steps (k - 1)

/-- A grid coarser than the number: `10 ^ k` exceeds `m * 2 ^ q`. The factor is just above the
decimal logarithm of two. -/
def coarsest (m : Nat) (q : Int) : Int :=
  ((m.log2 + 1 : Int) + q) * 30103 / 100000 + 2

/-- The shortest decimal for a positive magnitude. The grids searched reach past the digits any
format here needs. -/
def shortest (f : BinaryFormat) (tie : Tie) (m : Nat) (q : Int) : Decimal :=
  search tie (Interval.around f m q) q (f.fractionBits + 3) (coarsest m q)

end Decimal

end PointStyle
