/-!
Binary floating-point formats, on natural numbers. A format reads a bit pattern as a `Datum` and
rounds a quotient to the nearest pattern. `Float` and `Float32` are used through these two maps,
so that a statement about them is a statement about significands and exponents.
-/
namespace PointStyle

def twoPow (n : Nat) : Nat := Nat.pow 2 n

def tenPow (n : Nat) : Nat := Nat.pow 10 n

/-- A binary format: how many bits store the fraction and how many the exponent. -/
structure BinaryFormat where
  fractionBits : Nat
  exponentBits : Nat
deriving DecidableEq, Repr

/-- What a bit pattern stands for. A finite datum is `± significand * 2 ^ exponent`. -/
inductive Datum where
  | nan
  | infinite (negative : Bool)
  | finite (negative : Bool) (significand : Nat) (exponent : Int)
deriving DecidableEq, Repr

namespace BinaryFormat

def double : BinaryFormat := ⟨52, 11⟩

def single : BinaryFormat := ⟨23, 8⟩

/-- The exponent of the last fraction bit of the smallest magnitudes. -/
def leastExponent (f : BinaryFormat) : Int :=
  2 - (twoPow (f.exponentBits - 1) : Int) - f.fractionBits

/-- The magnitude pattern of infinity. Every larger magnitude pattern is not a number. -/
def infinityBits (f : BinaryFormat) : Nat :=
  (twoPow f.exponentBits - 1) * twoPow f.fractionBits

def signBit (f : BinaryFormat) : Nat :=
  twoPow (f.exponentBits + f.fractionBits)

/-- The pattern written for a datum that is not a number. -/
def nanBits (f : BinaryFormat) : Nat :=
  f.infinityBits + twoPow (f.fractionBits - 1)

def decode (f : BinaryFormat) (bits : Nat) : Datum :=
  let negative := decide (f.signBit ≤ bits)
  let magnitude := bits % f.signBit
  if f.infinityBits < magnitude then .nan
  else if magnitude = f.infinityBits then .infinite negative
  else
    let field := magnitude / twoPow f.fractionBits
    let fraction := magnitude % twoPow f.fractionBits
    if field = 0 then .finite negative fraction f.leastExponent
    else .finite negative (twoPow f.fractionBits + fraction)
      (f.leastExponent + ((field - 1 : Nat) : Int))

end BinaryFormat

/-- The quotient rounded to the nearest natural number, a half going to the even one. -/
def roundHalfEven (num den : Nat) : Nat :=
  let quotient := num / den
  let remainder := num % den
  if 2 * remainder < den then quotient
  else if den < 2 * remainder then quotient + 1
  else quotient + quotient % 2

/-- The greatest `k` with `2 ^ k ≤ num / den`, for positive arguments. -/
def floorLog2 (num den : Nat) : Int :=
  let guess : Int := (num.log2 : Int) - den.log2
  if den * twoPow guess.toNat ≤ num * twoPow (-guess).toNat then guess else guess - 1

namespace BinaryFormat

/-- The magnitude pattern nearest to `num / den`, ties to the even pattern. A significand that
rounds up to the next power of two carries into the exponent field by plain addition. -/
def nearest (f : BinaryFormat) (num den : Nat) : Nat :=
  if num = 0 then 0
  else
    let exponent := max (floorLog2 num den - f.fractionBits) f.leastExponent
    let significand :=
      roundHalfEven (num * twoPow (-exponent).toNat) (den * twoPow exponent.toNat)
    min ((exponent - f.leastExponent).toNat * twoPow f.fractionBits + significand) f.infinityBits

def signed (f : BinaryFormat) (negative : Bool) (magnitude : Nat) : Nat :=
  if negative then f.signBit + magnitude else magnitude

def encode (f : BinaryFormat) : Datum → Nat
  | .nan => f.nanBits
  | .infinite negative => f.signed negative f.infinityBits
  | .finite negative significand exponent =>
    f.signed negative (f.nearest (significand * twoPow exponent.toNat) (twoPow (-exponent).toNat))

/-- The pattern nearest to `± coefficient * 10 ^ exponent`. Exponents so far out that the result
is infinite or zero whatever the coefficient are settled without computing the power. -/
def nearestDecimal (f : BinaryFormat) (negative : Bool) (coefficient : Nat) (exponent : Int) :
    Nat :=
  f.signed negative <|
    if coefficient = 0 then 0
    else if (twoPow f.exponentBits : Int) < exponent then f.infinityBits
    else if exponent < -((twoPow f.exponentBits : Int) + coefficient.log2) then 0
    else f.nearest (coefficient * tenPow exponent.toNat) (tenPow (-exponent).toNat)

end BinaryFormat

namespace Datum

def ofDouble (x : Float) : Datum :=
  BinaryFormat.double.decode x.toBits.toNat

def toDouble (d : Datum) : Float :=
  Float.ofBits (UInt64.ofNat (BinaryFormat.double.encode d))

def ofSingle (x : Float32) : Datum :=
  BinaryFormat.single.decode x.toBits.toNat

def toSingle (d : Datum) : Float32 :=
  Float32.ofBits (UInt32.ofNat (BinaryFormat.single.encode d))

/-- An integer as a datum, zero being positive. -/
def ofInt (n : Int) : Datum :=
  .finite (decide (n < 0)) n.natAbs 0

/-- The integer nearest to a finite datum, a half going away from zero; its sign is kept apart. -/
def roundAway (significand : Nat) (exponent : Int) : Nat :=
  let num := significand * twoPow exponent.toNat
  let den := twoPow (-exponent).toNat
  (2 * num + den) / (2 * den)

def zero (negative : Bool) : Datum :=
  .finite negative 0 0

def one : Datum :=
  .finite false 1 0

/-- The datum moved into the interval from zero to one. What is not a number stays so, and a
negative zero keeps its sign. -/
def clampUnit : Datum → Datum
  | .nan => .nan
  | .infinite negative => if negative then zero false else one
  | .finite negative m e =>
    if m = 0 then zero negative
    else if negative then zero false
    else if twoPow (-e).toNat < m * twoPow e.toNat then one
    else .finite false m e

/-- The double nearest to a datum divided by a positive number. -/
def overNat (d : Datum) (n : Nat) : Float :=
  match d with
  | .finite negative m e =>
    let magnitude :=
      BinaryFormat.double.nearest (m * twoPow e.toNat) (n * twoPow (-e).toNat)
    Float.ofBits (UInt64.ofNat (BinaryFormat.double.signed negative magnitude))
  | d => d.toDouble

def isZero : Datum → Bool
  | .finite _ m _ => m == 0
  | _ => false

/-- A datum that is neither infinite nor missing. -/
def isFinite : Datum → Bool
  | .finite .. => true
  | _ => false

end Datum

def singleOfRatio (num den : Nat) : Float32 :=
  Float32.ofBits (UInt32.ofNat (BinaryFormat.single.nearest num den))

/-- The double nearest to `± coefficient * 10 ^ exponent`. -/
def doubleOfDecimal (negative : Bool) (coefficient : Nat) (exponent : Int) : Float :=
  Float.ofBits (UInt64.ofNat (BinaryFormat.double.nearestDecimal negative coefficient exponent))

end PointStyle
