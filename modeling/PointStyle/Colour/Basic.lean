import PointStyle.Decimal.Format

/-!
Colours: three channels of eight bits and an alpha in single precision.
-/
namespace PointStyle

/-- An sRGB colour. The alpha is meant to lie between zero and one, but the type does not say so. -/
structure Colour where
  red : UInt8
  green : UInt8
  blue : UInt8
  alpha : Float32
deriving DecidableEq

namespace Colour

/-- A colour whose alpha is one. -/
def rgb (red green blue : UInt8) : Colour :=
  ⟨red, green, blue, 1⟩

def black : Colour := rgb 0 0 0

instance : Inhabited Colour := ⟨black⟩

/-- The channel nearest to a number: halves go away from zero, and numbers outside the range of
channels to its ends. -/
def channel (x : Float) : UInt8 :=
  match Datum.ofDouble x with
  | .nan => 0
  | .infinite negative => if negative then 0 else 255
  | .finite negative m e => if negative then 0 else UInt8.ofNat (min (Datum.roundAway m e) 255)

/-- The alpha nearest to a number moved into the unit interval. -/
def unitAlpha (x : Float) : Float32 :=
  (Datum.ofDouble x).clampUnit.toSingle

/-- The colour in functional form. -/
def text (c : Colour) : String :=
  "rgba(" ++ toString c.red.toNat ++ ", " ++ toString c.green.toNat ++ ", " ++
    toString c.blue.toNat ++ ", " ++ Decimal.plainSingle c.alpha ++ ")"

/-- The double that the shortest decimal of a single reads as, so that 0.3 stays 0.3. -/
def widen (x : Float32) : Float :=
  match Datum.ofSingle x with
  | .finite negative m e =>
    if m = 0 then (Datum.zero negative).toDouble
    else
      let d := Decimal.shortest .single .up m e
      doubleOfDecimal negative d.coefficient d.exponent
  | d => d.toDouble

/-- The channels from 0 to 255 and the alpha, as doubles. -/
def components (c : Colour) : Float × Float × Float × Float :=
  let channel := fun n : UInt8 => (Datum.ofInt n.toNat).toDouble
  (channel c.red, channel c.green, channel c.blue, widen c.alpha)

/-- Whether two colours look the same: equal channels, and alphas equal as numbers. -/
def sameAs (a b : Colour) : Bool :=
  a.red == b.red && a.green == b.green && a.blue == b.blue && a.alpha == b.alpha

/-- What a colour is hashed by: its channels and the bits of its alpha. -/
def hashKey (c : Colour) : UInt8 × UInt8 × UInt8 × UInt32 :=
  (c.red, c.green, c.blue, c.alpha.toBits)

end Colour

end PointStyle
