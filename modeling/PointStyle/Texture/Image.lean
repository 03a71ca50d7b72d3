import PointStyle.Resource.Provider

/-!
Images, and reading them from the simplest kind of PNG: eight bits to a channel, rows without
filters, and pixel data that is stored but not compressed. One colour may be transparent. Other
formats take another decoder.
-/
namespace PointStyle

namespace Texture

/-- An image: red, green, blue and alpha of each pixel, row by row from the top. -/
structure Image where
  width : Nat
  height : Nat
  pixels : Bytes
deriving DecidableEq, Repr

namespace Image

def outline (image : Image) : String :=
  let numbers := image.pixels.map fun b => toString b.toNat
  "TextureImage \x7b width: " ++ toString image.width ++ ", height: " ++ toString image.height ++
    ", pixels: [" ++ ", ".intercalate numbers ++ "] \x7d"

/-- What every PNG starts with. -/
def signature : Bytes := [137, 80, 78, 71, 13, 10, 26, 10]

/-- The number that bytes write, the highest first. -/
def bigEndian (bytes : Bytes) : Nat :=
  bytes.foldl (fun n b => 256 * n + b.toNat) 0

/-- One chunk of a PNG. -/
structure Chunk where
  kind : Bytes
  data : Bytes

/-- The kind of the chunk that describes the image. -/
def headerKind : Bytes := [73, 72, 68, 82]

/-- The kind of the chunks that hold the pixel data. -/
def dataKind : Bytes := [73, 68, 65, 84]

/-- The kind of the chunk that names a transparent colour. -/
def transparencyKind : Bytes := [116, 82, 78, 83]

def endKind : Bytes := [73, 69, 78, 68]

/-- Splits bytes into chunks. Each has its length, its kind, its data and a checksum. What follows
the end of the image does not count. -/
def chunks (bytes : Bytes) : Option (List Chunk) :=
  match bytes with
  | [] => some []
  | l₀ :: l₁ :: l₂ :: l₃ :: k₀ :: k₁ :: k₂ :: k₃ :: rest =>
    let length := bigEndian [l₀, l₁, l₂, l₃]
    if rest.length < length + 4 then none
    else if [k₀, k₁, k₂, k₃] = endKind then some []
    else do
      let others ← chunks (rest.drop (length + 4))
      return ⟨[k₀, k₁, k₂, k₃], rest.take length⟩ :: others
  | _ => none
termination_by bytes.length
decreasing_by
  simp only [List.length_drop, List.length_cons]
  omega

/-- Joins stored blocks. Each has a flag byte, whose lowest bit marks the last block and whose next
two bits are its kind, its length and the complement of its length, and its data. -/
def storedBlocks (bytes : Bytes) : Option Bytes :=
  match bytes with
  | flag :: l₀ :: l₁ :: _ :: _ :: rest =>
    let length := bigEndian [l₁, l₀]
    if flag.toNat / 2 % 4 ≠ 0 ∨ rest.length < length then none
    else if flag.toNat % 2 = 1 then some (rest.take length)
    else do
      let others ← storedBlocks (rest.drop length)
      return rest.take length ++ others
  | _ => none
termination_by bytes.length
decreasing_by
  simp only [List.length_drop, List.length_cons]
  omega

/-- The channels of a pixel. -/
inductive Layout where
  | grey
  | rgb
  | greyAlpha
  | rgba
deriving DecidableEq, Repr

namespace Layout

def ofByte? (b : UInt8) : Option Layout :=
  if b = 0 then some .grey
  else if b = 2 then some .rgb
  else if b = 4 then some .greyAlpha
  else if b = 6 then some .rgba
  else none

def channels : Layout → Nat
  | .grey => 1
  | .rgb => 3
  | .greyAlpha => 2
  | .rgba => 4

/-- The alpha of a pixel that has none of its own: opaque, unless it has the transparent colour. -/
def alpha (transparent : Option Bytes) (samples : Bytes) : UInt8 :=
  if transparent = some samples then 0 else 255

def expand (transparent : Option Bytes) : Layout → Bytes → Bytes
  | .grey, g :: rest => g :: g :: g :: alpha transparent [g] :: expand transparent .grey rest
  | .rgb, r :: g :: b :: rest =>
    r :: g :: b :: alpha transparent [r, g, b] :: expand transparent .rgb rest
  | .greyAlpha, g :: a :: rest => g :: g :: g :: a :: expand transparent .greyAlpha rest
  | .rgba, bytes => bytes
  | _, _ => []

/-- The samples of a transparent colour, each of which is the lower of two bytes. -/
def samples : Bytes → Bytes
  | _ :: low :: rest => low :: samples rest
  | _ => []

end Layout

/-- The rows of an image, each of which follows a zero byte. -/
def rows (rowLength : Nat) : Nat → Bytes → Option Bytes
  | 0, _ => some []
  | height + 1, bytes =>
    match bytes with
    | 0 :: rest =>
      if rest.length < rowLength then none
      else do
        let others ← rows rowLength height (rest.drop rowLength)
        return rest.take rowLength ++ others
    | _ => none

/-- Reads what follows the signature. -/
def ofChunks? (bytes : Bytes) : Option Image := do
  let all ← chunks bytes
  let header ← all.head?
  if header.kind ≠ headerKind then none
  match header.data with
  | w₀ :: w₁ :: w₂ :: w₃ :: h₀ :: h₁ :: h₂ :: h₃ :: depth :: colourType :: _ =>
    if depth ≠ 8 then none
    let width := bigEndian [w₀, w₁, w₂, w₃]
    let height := bigEndian [h₀, h₁, h₂, h₃]
    let layout ← Layout.ofByte? colourType
    let stream := (all.filter (·.kind = dataKind)).flatMap (·.data)
    let raw ← storedBlocks (stream.drop 2)
    let pixels ← rows (width * layout.channels) height raw
    let transparent := (all.takeWhile (·.kind ≠ dataKind)).find? (·.kind = transparencyKind)
    let colour := transparent.map fun chunk => (Layout.samples chunk.data).take layout.channels
    return ⟨width, height, layout.expand colour pixels⟩
  | _ => none

/-- Reads an image. Bytes that do not start with the signature have no known format. -/
def decode (bytes : Bytes) : Except DecodeFault Image :=
  if signature.isPrefixOf bytes then
    match ofChunks? (bytes.drop signature.length) with
    | some image => .ok image
    | none => .error .truncated
  else .error .unknownFormat

/-- A way of reading images. -/
abbrev Decoder := Bytes → Except DecodeFault Image

def ofSource (src : String) (bytes : Bytes) (decoder : Decoder := decode) :
    Except ResourceError Image :=
  (decoder bytes).mapError (.decode src)

end Image

end Texture

end PointStyle
