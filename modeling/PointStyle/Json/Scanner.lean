import PointStyle.Json.Draft
import PointStyle.Decimal.Literal
import PointStyle.Text.Blank
import PointStyle.Text.Hex

/-!
From JSON text to a draft.
-/
namespace PointStyle

namespace Json

namespace Scanner

/-- The fault of a text that had to go on: it ended, or went on differently. -/
def faultAt : List Char → Fault
  | [] => .truncated
  | _ :: _ => .malformed

def word : List Char → List Char → Except Fault (List Char)
  | [], text => .ok text
  | expected :: rest, c :: text => if c = expected then word rest text else .error .malformed
  | _ :: _, [] => .error .truncated

def byteCount (text : List Char) : Nat :=
  text.foldl (fun count c => count + c.utf8Size) 0

/-- The fault of a four-digit escape that is not one: the text ends within it when fewer than four
bytes are left. -/
def hexFault (text : List Char) : Fault :=
  if byteCount text < 4 then .truncated else .malformed

def hexValue? (a b c d : Char) : Option Nat := do
  let a ← Text.hexDigit? a
  let b ← Text.hexDigit? b
  let c ← Text.hexDigit? c
  let d ← Text.hexDigit? d
  return ((a * 16 + b) * 16 + c) * 16 + d

def escaped? (c : Char) : Option Char :=
  if c = '"' then some '"'
  else if c = '\\' then some '\\'
  else if c = '/' then some '/'
  else if c = 'b' then some '\x08'
  else if c = 'f' then some '\x0c'
  else if c = 'n' then some '\n'
  else if c = 'r' then some '\r'
  else if c = 't' then some '\t'
  else none

/-- Passes over a string whose opening quote is read, and gives what follows it. Escapes are
checked one by one only. -/
def skipString : List Char → Except Fault (List Char)
  | [] => .error .truncated
  | '"' :: rest => .ok rest
  | ['\\'] => .error .truncated
  | '\\' :: 'u' :: a :: b :: c :: d :: rest =>
    match hexValue? a b c d with
    | some _ => skipString rest
    | none => .error .malformed
  | '\\' :: 'u' :: rest => .error (hexFault rest)
  | '\\' :: c :: rest =>
    match escaped? c with
    | some _ => skipString rest
    | none => .error .malformed
  | c :: rest => if c.toNat < 0x20 then .error .malformed else skipString rest

def isHighSurrogate (code : Nat) : Bool :=
  0xd800 ≤ code && code ≤ 0xdbff

def isLowSurrogate (code : Nat) : Bool :=
  0xdc00 ≤ code && code ≤ 0xdfff

def pairChar (high low : Nat) : Char :=
  Char.ofNat (0x10000 + (high - 0xd800) * 0x400 + (low - 0xdc00))

/-- Reads a string whose opening quote is read. A surrogate must stand in a pair. -/
def readString (done : List Char) : List Char → Except Fault String
  | [] => .error .truncated
  | '"' :: _ => .ok (String.ofList done.reverse)
  | ['\\'] => .error .truncated
  | '\\' :: 'u' :: a :: b :: c :: d :: rest =>
    match hexValue? a b c d with
    | none => .error .malformed
    | some code =>
      if isLowSurrogate code then .error .malformed
      else if isHighSurrogate code then
        match rest with
        | '\\' :: 'u' :: e :: f :: g :: h :: rest =>
          match hexValue? e f g h with
          | none => .error .malformed
          | some low =>
            if isLowSurrogate low then readString (pairChar code low :: done) rest
            else .error .malformed
        | '\\' :: 'u' :: rest => .error (hexFault rest)
        | '\\' :: rest => .error (faultAt rest)
        | rest => .error (faultAt rest)
      else readString (Char.ofNat code :: done) rest
  | '\\' :: 'u' :: rest => .error (hexFault rest)
  | '\\' :: c :: rest =>
    match escaped? c with
    | some c => readString (c :: done) rest
    | none => .error .malformed
  | c :: rest => if c.toNat < 0x20 then .error .malformed else readString (c :: done) rest

/-- The string whose opening quote is read, with what follows it; or the break in it. -/
def string (text : List Char) : Except Break (Except Fault String × List Char) :=
  let value := readString [] text
  match skipString text with
  | .ok rest => .ok (value, rest)
  | .error skip =>
    match value with
    | .ok _ => .error (.both skip)
    | .error read => .error ⟨read, skip⟩

/-- Whole numbers are kept as such when they fit 64 bits, with a sign or without. A negative zero
does not. -/
def wholeNumber (negative : Bool) (n : Nat) : Number :=
  if negative then
    if n = 0 ∨ twoPow 63 < n then .double (doubleOfDecimal true n 0) else .whole (-n)
  else if n < twoPow 64 then .whole n
  else .double (doubleOfDecimal false n 0)

/-- A number beyond the doubles is malformed. -/
def inRange (x : Float) : Except Fault Number :=
  if (Datum.ofDouble x).isFinite then .ok (.double x) else .error .malformed

/-- The digits after an exponent mark. -/
def exponent (text : List Char) : Except Fault (Int × List Char) :=
  let (negative, text) := Decimal.takeSign text
  match text.span Char.isDigit with
  | ([], rest) => .error (faultAt rest)
  | (digits, rest) =>
    let value : Int := Decimal.digitsValue digits
    .ok (if negative then -value else value, rest)

def optionalExponent : List Char → Except Fault (Option Int × List Char)
  | c :: rest =>
    if c = 'e' ∨ c = 'E' then (exponent rest).map fun (value, rest) => (some value, rest)
    else .ok (none, c :: rest)
  | [] => .ok (none, [])

/-- The digits before the point: a zero alone, or digits that do not start with one. -/
def wholeDigits (text : List Char) : Except Fault (List Char × List Char) :=
  match text.span Char.isDigit with
  | ([], rest) => .error (faultAt rest)
  | ('0' :: _ :: _, _) => .error .malformed
  | answer => .ok answer

/-- The digits after the point, if there is one. -/
def fractionDigits : List Char → Except Fault (Option (List Char) × List Char)
  | '.' :: rest =>
    match rest.span Char.isDigit with
    | ([], rest) => .error (faultAt rest)
    | (digits, rest) => .ok (some digits, rest)
  | rest => .ok (none, rest)

/-- A number after its sign. -/
def magnitude (negative : Bool) (text : List Char) :
    Except Fault (Except Fault Number × List Char) := do
  let (whole, rest) ← wholeDigits text
  let (fraction, rest) ← fractionDigits rest
  let (power, rest) ← optionalExponent rest
  match fraction, power with
  | none, none =>
    let n := wholeNumber negative (Decimal.digitsValue whole)
    return (if (Datum.ofDouble n.toDouble).isFinite then .ok n else .error .malformed, rest)
  | _, _ =>
    let fraction := fraction.getD []
    let coefficient := Decimal.digitsValue (whole ++ fraction)
    return (inRange (doubleOfDecimal negative coefficient (power.getD 0 - fraction.length)), rest)

/-- A draft with what follows it, when the text does not break within it. -/
abbrev Scanned := Draft × Option (List Char)

/-- A draft that ends in a break. -/
def stopped (stop : Break) : Scanned := (.broken stop, none)

/-- A number with its sign. One that passes over a broken number calls it malformed. -/
def number (text : List Char) : Scanned :=
  let scanned := match text with
    | '-' :: rest => magnitude true rest
    | rest => magnitude false rest
  match scanned with
  | .ok (value, rest) => (.number value, some rest)
  | .error fault => stopped ⟨fault, .malformed⟩

/-- One of the words of JSON, after its first letter. -/
def wordDraft (letters : String) (draft : Draft) (text : List Char) : Scanned :=
  match word letters.toList text with
  | .ok rest => (draft, some rest)
  | .error fault => stopped (.both fault)

mutual

/-- Scans a value. The fuel bounds the number of tokens. -/
def value : Nat → List Char → Scanned
  | 0, _ => stopped (.both .malformed)
  | fuel + 1, text =>
    match Text.dropBlanks text with
    | [] => stopped (.both .truncated)
    | 'n' :: rest => wordDraft "ull" .null rest
    | 't' :: rest => wordDraft "rue" (.bool true) rest
    | 'f' :: rest => wordDraft "alse" (.bool false) rest
    | '"' :: rest =>
      match string rest with
      | .ok (s, rest) => (.string s, some rest)
      | .error stop => stopped stop
    | '[' :: rest => items fuel true [] rest
    | '\x7b' :: rest => members fuel true [] rest
    | c :: rest => if c = '-' ∨ c.isDigit then number (c :: rest) else stopped (.both .malformed)

def items : Nat → Bool → List Draft → List Char → Scanned
  | 0, _, done, _ => (.array done.reverse (some (.both .malformed)), none)
  | fuel + 1, first, done, text =>
    match Text.dropBlanks text with
    | [] => (.array done.reverse (some (.both .truncated)), none)
    | ']' :: rest => (.array done.reverse none, some rest)
    | c :: rest =>
      if first then item fuel done (c :: rest)
      else if c = ',' then
        match Text.dropBlanks rest with
        | ']' :: _ => (.array (Draft.broken (.both .malformed) :: done).reverse none, none)
        | rest => item fuel done rest
      else (.array done.reverse (some (.both .malformed)), none)

/-- Scans one item of an array and the items after it. -/
def item : Nat → List Draft → List Char → Scanned
  | 0, done, _ => (.array done.reverse (some (.both .malformed)), none)
  | fuel + 1, done, text =>
    match value fuel text with
    | (draft, some rest) => items fuel false (draft :: done) rest
    | (draft, none) => (.array (draft :: done).reverse none, none)

def members : Nat → Bool → List (Except Fault String × Draft) → List Char → Scanned
  | 0, _, done, _ => (.object done.reverse (some (.both .malformed)), none)
  | fuel + 1, first, done, text =>
    match Text.dropBlanks text with
    | [] => (.object done.reverse (some (.both .truncated)), none)
    | '\x7d' :: rest => (.object done.reverse none, some rest)
    | c :: rest =>
      if first then member fuel done (c :: rest)
      else if c = ',' then member fuel done (Text.dropBlanks rest)
      else (.object done.reverse (some (.both .malformed)), none)

/-- Scans one member of an object, which starts with its name, and the members after it. -/
def member : Nat → List (Except Fault String × Draft) → List Char → Scanned
  | 0, done, _ => (.object done.reverse (some (.both .malformed)), none)
  | fuel + 1, done, text =>
    match text with
    | '"' :: rest =>
      match string rest with
      | .error stop => (.object done.reverse (some stop), none)
      | .ok (name, rest) =>
        match Text.dropBlanks rest with
        | ':' :: rest =>
          match value fuel rest with
          | (draft, some rest) => members fuel false ((name, draft) :: done) rest
          | (draft, none) => (.object ((name, draft) :: done).reverse none, none)
        | rest =>
          let draft := Draft.broken (.both (faultAt rest))
          (.object ((name, draft) :: done).reverse none, none)
    | rest => (.object done.reverse (some (.both (faultAt rest))), none)

end

end Scanner

/-- The draft of a text, and the fault after it: anything but blanks is malformed there. -/
def scan (text : String) : Draft × Except Fault Unit :=
  let text := text.toList
  let (draft, rest) := Scanner.value (3 * text.length + 3) text
  match rest with
  | none => (draft, .ok ())
  | some rest => (draft, if (Text.dropBlanks rest).isEmpty then .ok () else .error .malformed)

/-- Reads a text as one value, without a limit on its nesting. -/
def parse (text : String) : Except Fault Json := do
  let (draft, rest) := scan text
  let value ← draft.toJson .value
  rest
  return value

end Json

end PointStyle
