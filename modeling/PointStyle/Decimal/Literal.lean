import PointStyle.Binary

/-!
Decimal literals as they stand in colour texts:
`[+-]? (digits [. digits?]? | . digits) ([eE] [+-]? digits)?`, or one of the words `nan`,
`infinity`, `inf` in any letter case and without a sign.
-/
namespace PointStyle

namespace Decimal

def digitsValue (digits : List Char) : Nat :=
  digits.foldl (fun n d => 10 * n + (d.toNat - '0'.toNat)) 0

/-- Why no literal could be read. -/
inductive LiteralFault where
  /-- The text does not start with a literal. -/
  | absent
  /-- An exponent mark is not followed by digits. No other reading of the text is tried. -/
  | danglingExponent
deriving DecidableEq, Repr

/-- An optional sign; true when it is a minus. -/
def takeSign : List Char → Bool × List Char
  | '+' :: rest => (false, rest)
  | '-' :: rest => (true, rest)
  | rest => (false, rest)

/-- The digits before and after the point of an unsigned literal. -/
def takeMantissa (text : List Char) : Option ((List Char × List Char) × List Char) :=
  match text.span Char.isDigit with
  | ([], '.' :: rest) =>
    match rest.span Char.isDigit with
    | ([], _) => none
    | (fraction, rest) => some (([], fraction), rest)
  | ([], _) => none
  | (whole, '.' :: rest) =>
    let (fraction, rest) := rest.span Char.isDigit
    some ((whole, fraction), rest)
  | (whole, rest) => some ((whole, []), rest)

def takeExponent : List Char → Except LiteralFault (Int × List Char)
  | c :: rest =>
    if c = 'e' ∨ c = 'E' then
      let (negative, rest) := takeSign rest
      match rest.span Char.isDigit with
      | ([], _) => .error .danglingExponent
      | (digits, rest) =>
        let value : Int := digitsValue digits
        .ok (if negative then -value else value, rest)
    else .ok (0, c :: rest)
  | [] => .ok (0, [])

/-- What follows `word` when the text starts with it in any letter case. -/
def dropWord : List Char → List Char → Option (List Char)
  | [], text => some text
  | w :: word, c :: text => if c.toLower = w then dropWord word text else none
  | _ :: _, [] => none

/-- One of the words for a number that has no digits. -/
def takeWord (text : List Char) : Option (Float × List Char) :=
  match dropWord "nan".toList text with
  | some rest => some (Datum.nan.toDouble, rest)
  | none =>
    match dropWord "infinity".toList text with
    | some rest => some ((Datum.infinite false).toDouble, rest)
    | none => (dropWord "inf".toList text).map ((Datum.infinite false).toDouble, ·)

/-- Reads the literal a text starts with, and gives what follows it. -/
def readLiteral (text : List Char) : Except LiteralFault (Float × List Char) :=
  let (negative, unsigned) := takeSign text
  match takeMantissa unsigned with
  | some ((whole, fraction), rest) => do
    let (exponent, rest) ← takeExponent rest
    let value :=
      doubleOfDecimal negative (digitsValue (whole ++ fraction)) (exponent - fraction.length)
    return (value, rest)
  | none =>
    match takeWord text with
    | some answer => .ok answer
    | none => .error .absent

end Decimal

end PointStyle
