import PointStyle.Colour.Named
import PointStyle.Decimal.Literal
import PointStyle.Text.Blank
import PointStyle.Text.Hex
import PointStyle.Text.Quoted

/-!
Reading colours. A colour is a hash mark with 3, 4, 6 or 8 hexadecimal digits, the functional form
with 3 or 4 numbers, or a name, each with blanks around it. The three forms are tried in this
order, and what the last of them says is reported; only a number with a dangling exponent stops
the reading at once.
-/
namespace PointStyle

namespace Colour

/-- Why a text is not a colour. -/
inductive Reason where
  /-- No form starts here, not even a name. -/
  | noName
  /-- The letters here are not the name of a colour. -/
  | unknownName
  /-- A colour was read, and this is left. -/
  | leftover
  /-- The number here has an exponent mark without digits. -/
  | danglingExponent
deriving DecidableEq, Repr

/-- The text that is not a colour, the place in it that is at fault, and why. -/
structure ParseError where
  input : String
  rest : String
  reason : Reason
deriving DecidableEq, Repr

def Reason.code : Reason → String
  | .noName => "Alpha"
  | .unknownName => "MapOpt"
  | .leftover => "Eof"
  | .danglingExponent => "Float"

/-- Whether the reason stops the reading at once. -/
def Reason.isFinal : Reason → Bool
  | .danglingExponent => true
  | _ => false

def ParseError.message (e : ParseError) : String :=
  "Invalid color '" ++ e.input ++ "': Parsing " ++
    (if e.reason.isFinal then "Failure" else "Error") ++ ": Error \x7b input: " ++
    Text.quoted e.rest ++ ", code: " ++ e.reason.code ++ " \x7d"

namespace Parser

/-- The values of the hexadecimal digits a text starts with. -/
def leadingHex : List Char → List Nat
  | [] => []
  | c :: rest =>
    match Text.hexDigit? c with
    | some value => value :: leadingHex rest
    | none => []

def pair (high low : Nat) : UInt8 :=
  UInt8.ofNat (high * 16 + low)

/-- The alpha of two hexadecimal digits, in parts of 255. -/
def pairAlpha (high low : Nat) : Float32 :=
  singleOfRatio (high * 16 + low) 255

/-- A colour in hexadecimal digits, after the hash mark. The longest form that the digits allow is
taken, and a single digit stands for its doubling. -/
def hexDigits (text : List Char) : Option (Colour × List Char) :=
  match leadingHex text with
  | r :: r' :: g :: g' :: b :: b' :: a :: a' :: _ =>
    some (⟨pair r r', pair g g', pair b b', pairAlpha a a'⟩, text.drop 8)
  | r :: r' :: g :: g' :: b :: b' :: _ =>
      some (rgb (pair r r') (pair g g') (pair b b'), text.drop 6)
  | r :: g :: b :: a :: _ => some (⟨pair r r, pair g g, pair b b, pairAlpha a a⟩, text.drop 4)
  | r :: g :: b :: _ => some (rgb (pair r r) (pair g g) (pair b b), text.drop 3)
  | _ => none

def hex : List Char → Option (Colour × List Char)
  | '#' :: rest => hexDigits rest
  | _ => none

/-- Why a form was not read. -/
inductive Stop where
  /-- The text has another form. -/
  | mismatch
  /-- The number at this place has a dangling exponent. -/
  | danglingExponent (place : List Char)

/-- A mark with blanks around it. -/
def mark (c : Char) (text : List Char) : Option (List Char) :=
  match Text.dropBlanks text with
  | d :: rest => if d = c then some (Text.dropBlanks rest) else none
  | [] => none

def number (text : List Char) : Except Stop (Float × List Char) :=
  match Decimal.readLiteral text with
  | .ok answer => .ok answer
  | .error .absent => .error .mismatch
  | .error .danglingExponent => .error (.danglingExponent text)

/-- The numbers that follow a first one, each after a comma. A comma without a number after it is
left unread. -/
def moreNumbers : Nat → List Char → Except Stop (List Float × List Char)
  | 0, text => .ok ([], text)
  | fuel + 1, text =>
    match mark ',' text with
    | none => .ok ([], text)
    | some afterComma =>
      match number afterComma with
      | .error .mismatch => .ok ([], text)
      | .error stop => .error stop
      | .ok (x, rest) => do
        let (xs, rest) ← moreNumbers fuel rest
        return (x :: xs, rest)

def numbers (text : List Char) : Except Stop (List Float × List Char) := do
  let (x, rest) ← number text
  let (xs, rest) ← moreNumbers rest.length rest
  return (x :: xs, rest)

/-- The colour of three or four numbers. -/
def ofNumbers : List Float → Except Stop Colour
  | [r, g, b] => .ok (rgb (channel r) (channel g) (channel b))
  | [r, g, b, a] => .ok ⟨channel r, channel g, channel b, unitAlpha a⟩
  | _ => .error .mismatch

/-- What follows the word of the functional form, the longer word being tried first. -/
def functionWord (text : List Char) : Option (List Char) :=
  match Decimal.dropWord "rgba".toList text with
  | some rest => some rest
  | none => Decimal.dropWord "rgb".toList text

def orMismatch {α : Type} : Option α → Except Stop α
  | some a => .ok a
  | none => .error .mismatch

def functional (text : List Char) : Except Stop (Colour × List Char) := do
  let text ← orMismatch (functionWord text)
  let text ← orMismatch (mark '(' text)
  let (xs, text) ← numbers text
  let text ← orMismatch (mark ')' text)
  let colour ← ofNumbers xs
  return (colour, text)

/-- A colour by name, in any letter case. -/
def name (text : List Char) : Except (Reason × List Char) (Colour × List Char) :=
  match text.span Char.isAlpha with
  | ([], _) => .error (.noName, text)
  | (letters, rest) =>
    match ofName? (String.ofList (letters.map Char.toLower)) with
    | some colour => .ok (colour, rest)
    | none => .error (.unknownName, text)

/-- A colour at the start of a text, and what follows it. -/
def colour (text : List Char) : Except (Reason × List Char) (Colour × List Char) :=
  match hex text with
  | some answer => .ok answer
  | none =>
    match functional text with
    | .ok answer => .ok answer
    | .error (.danglingExponent place) => .error (.danglingExponent, place)
    | .error .mismatch => name text

/-- A colour that makes up the whole text but for blanks. -/
def whole (text : List Char) : Except (Reason × List Char) Colour :=
  match colour (Text.dropBlanks text) with
  | .error stop => .error stop
  | .ok (colour, rest) =>
    match Text.dropBlanks rest with
    | [] => .ok colour
    | rest => .error (.leftover, rest)

end Parser

def parse (input : String) : Except ParseError Colour :=
  (Parser.whole input.toList).mapError fun (reason, rest) => ⟨input, String.ofList rest, reason⟩

def isColour (input : String) : Bool :=
  (parse input).toOption.isSome

end Colour

end PointStyle
