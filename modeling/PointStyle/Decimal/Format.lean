import PointStyle.Decimal.Shortest

/-!
How a binary number is written in decimal. The digits are always the shortest ones; a `Format`
holds the remaining decisions.
-/
namespace PointStyle

namespace Decimal

def digits (d : Decimal) : List Char :=
  Nat.toDigits 10 d.coefficient

/-- The power of ten of the first digit. -/
def magnitude (d : Decimal) : Int :=
  (d.digits.length : Int) + d.exponent - 1

/-- The number without an exponent mark; `whole` follows it when it has no fraction. -/
def positional (whole : String) (d : Decimal) : String :=
  let digits := d.digits
  if 0 ≤ d.exponent then
    String.ofList (digits ++ List.replicate d.exponent.toNat '0') ++ whole
  else
    let places := (-d.exponent).toNat
    if places < digits.length then
      let split := digits.length - places
      String.ofList (digits.take split) ++ "." ++ String.ofList (digits.drop split)
    else
      "0." ++ String.ofList (List.replicate (places - digits.length) '0' ++ digits)

/-- The number with one digit before the point and an explicitly signed exponent. -/
def scientific (d : Decimal) : String :=
  let exponent := d.magnitude
  let sign := if exponent < 0 then "-" else "+"
  let mantissa := match d.digits with
    | [] => ""
    | [digit] => String.ofList [digit]
    | digit :: rest => String.ofList (digit :: '.' :: rest)
  mantissa ++ "e" ++ sign ++ String.ofList (Nat.toDigits 10 exponent.natAbs)

/-- The decisions of a number format besides its digits. -/
structure Format where
  /-- Whether a number whose first digit has this power of ten is written without an exponent. -/
  isPositional : Int → Bool
  /-- What follows a positional number that has no fraction. -/
  whole : String
  /-- Which of two equally near shortest decimals is written. -/
  tie : Tie
  /-- The text of a number that is missing. -/
  nan : String
  /-- The text of an unbounded number. -/
  infinity : String

/-- The text of a magnitude `m * 2 ^ q`. -/
def Format.magnitudeText (style : Format) (f : BinaryFormat) (m : Nat) (q : Int) : String :=
  if m = 0 then "0" ++ style.whole
  else
    let d := shortest f style.tie m q
    if style.isPositional d.magnitude then d.positional style.whole else d.scientific

/-- The text of a datum of the given binary format. -/
def Format.text (style : Format) (f : BinaryFormat) : Datum → String
  | .nan => style.nan
  | .infinite negative => (if negative then "-" else "") ++ style.infinity
  | .finite negative m q => (if negative then "-" else "") ++ style.magnitudeText f m q

/-- Plain numbers have no exponent at any size, and whole ones no point. -/
def plain : Format where
  isPositional := fun _ => true
  whole := ""
  tie := .up
  nan := "NaN"
  infinity := "inf"

def plainDouble (x : Float) : String :=
  plain.text .double (.ofDouble x)

def plainSingle (x : Float32) : String :=
  plain.text .single (.ofSingle x)

end Decimal

end PointStyle
