/-!
Hexadecimal digits, read in either letter case and written in lower case, and bytes written as
pairs of them.
-/
namespace PointStyle

namespace Text

def hexDigit? (c : Char) : Option Nat :=
  if '0' ≤ c ∧ c ≤ '9' then some (c.toNat - '0'.toNat)
  else if 'a' ≤ c ∧ c ≤ 'f' then some (c.toNat - 'a'.toNat + 10)
  else if 'A' ≤ c ∧ c ≤ 'F' then some (c.toNat - 'A'.toNat + 10)
  else none

def hexPair (b : UInt8) : List Char :=
  [Nat.digitChar (b.toNat / 16), Nat.digitChar (b.toNat % 16)]

def hexBytes (bytes : List UInt8) : String :=
  String.ofList (bytes.flatMap hexPair)

def readHexPairs : List Char → Option (List UInt8)
  | [] => some []
  | [_] => none
  | high :: low :: rest => do
    let h ← hexDigit? high
    let l ← hexDigit? low
    let bytes ← readHexPairs rest
    return UInt8.ofNat (16 * h + l) :: bytes

/-- Reads a text of pairs of digits as bytes. -/
def bytesOfHex? (s : String) : Option (List UInt8) :=
  readHexPairs s.toList

end Text

end PointStyle
