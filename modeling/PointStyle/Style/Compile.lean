import PointStyle.Session
import PointStyle.Shader.Builder
import PointStyle.Style.Document
import PointStyle.Style.Error
import PointStyle.Style.Shape
import PointStyle.Texture.Pool

/-!
Compiling styles. All expressions are lowered first, which is the only part that can fail; then the
programs are put together from the texts and from what the lowerings referred to, and last the
texture of an image symbol is asked for.
-/
namespace PointStyle

namespace Session

def lower (registry : Registry) (stage : Stage) (e : Expression) (types : TypeSet) :
    EStateM ExpressionError Session String := fun session =>
  match session.run stage (registry.lower e (some types)) with
  | (.ok text, session) => .ok text session
  | (.error error, session) => .error error session

def report (session : Session) (record : Log.Record) : Session :=
  { session with log := session.log ++ [record] }

/-- Lowers the expression of a field and reports its text. -/
def lowerField (registry : Registry) (stage : Stage) (field : String) (e : Expression)
    (types : TypeSet) : EStateM ExpressionError Session String := do
  let text ← lower registry stage e types
  modify (·.report ⟨.trace, field ++ " -> " ++ text⟩)
  return text

end Session

namespace Style

namespace Symbol

/-- The size, one pixel unless it is given. -/
def sizeOrDefault (symbol : Symbol) : Expression :=
  symbol.size.getD (.number 1)

/-- The offset from the position of the feature, none unless it is given. -/
def offsetOrDefault (symbol : Symbol) : Expression :=
  symbol.offset.getD (.numberArray [0, 0])

/-- The part of the texture that is shown, all of it unless it is given. -/
def textureCoordOrDefault (symbol : Symbol) : Expression :=
  symbol.textureCoord.getD (.numberArray [0, 0, 1, 1])

/-- The rotation, none unless it is given. -/
def rotationOrDefault (symbol : Symbol) : Expression :=
  symbol.rotation.getD (.number 0)

/-- The colour, white unless it is given. -/
def colourOrDefault (symbol : Symbol) : Expression :=
  symbol.color.getD (.string "white")

/-- The opacity, full unless it is given. -/
def opacityOrDefault (symbol : Symbol) : Expression :=
  symbol.opacity.getD (.number 1)

end Symbol

/-- The types of a size: one number, or width and height. -/
def sizeTypes : TypeSet := .numberArray ||| .number

/-- The texts that the expressions of a style are lowered to. -/
structure Texts where
  size : String
  offset : String
  textureCoord : String
  rotation : String
  colour : String
  opacity : String
  mask : String
  filter : Option String

/-- The mask of a shape. Its size is lowered again where the mask is used. -/
def lowerMask (registry : Registry) (shape : Shape) (size : Expression) :
    EStateM ExpressionError Session String :=
  if shape.needsVisibleSize then do
    let text ← Session.lower registry .fragment size sizeTypes
    return shape.opacityMask ("vec2(" ++ text ++ ").x")
  else return shape.opacityMask ""

/-- The filter of a style, if it has one. -/
def lowerFilter (registry : Registry) (style : Style) :
    EStateM ExpressionError Session (Option String) :=
  match style.filter with
  | none => return none
  | some filter => some <$> Session.lowerField registry .fragment "filter" filter .boolean

/-- Lowers all expressions of a style, each for the program that uses it. -/
def lowerTexts (registry : Registry) (shape : Shape) (style : Style) :
    EStateM ExpressionError Session Texts := do
  let symbol := style.symbol
  let size ← Session.lowerField registry .vertex "size" symbol.sizeOrDefault sizeTypes
  let offset ← Session.lowerField registry .vertex "offset" symbol.offsetOrDefault .numberArray
  let textureCoord ←
    Session.lowerField registry .vertex "textureCoord" symbol.textureCoordOrDefault .numberArray
  let rotation ← Session.lowerField registry .vertex "rotation" symbol.rotationOrDefault .number
  let colour ← Session.lowerField registry .fragment "color" symbol.colourOrDefault .colour
  let opacity ← Session.lowerField registry .fragment "opacity" symbol.opacityOrDefault .number
  let mask ← lowerMask registry shape symbol.sizeOrDefault
  let filter ← style.lowerFilter registry
  return ⟨size, offset, textureCoord, rotation, colour, opacity, mask, filter⟩

namespace Texts

/-- The colour of a fragment: the colour of the symbol, more transparent by its opacity and mask. -/
def fragmentColour (texts : Texts) : String :=
  "vec4(" ++ texts.colour ++ ".rgb, " ++ texts.colour ++ ".a * " ++ texts.opacity ++ " * " ++
    texts.mask ++ ")"

/-- The changes of a program's parts that the texts make. -/
def edits (texts : Texts) (rotateWithView : Bool) : List Shader.Builder.Edit :=
  [.setSize ("vec2(" ++ texts.size ++ ")"),
   .setRotation texts.rotation,
   .setOffset texts.offset,
   .setTexCoord texts.textureCoord,
   .setRotateWithView rotateWithView,
   .setColor texts.fragmentColour] ++
  (texts.filter.map fun filter => Shader.Builder.Edit.setDiscard ("!" ++ filter)).toList

end Texts

/-- What a uniform is bound to when a style is drawn. -/
inductive Uniform where
  /-- The value of a variable. -/
  | number (name : String)
  | texture (handle : Texture.Handle)
deriving DecidableEq, Repr

def textureUniform : String := "u_texture"

/-- A texture that a style asks for. -/
structure TextureRequest where
  src : String
  crossOrigin : String
deriving DecidableEq, Repr

/-- The texture that a style asks for: only an image that names its source asks for one. -/
def textureRequest (shape : Shape) (symbol : Symbol) (defaultCrossOrigin : String) :
    Option TextureRequest :=
  if shape = .image then
    symbol.src.map fun src => ⟨src, symbol.crossOrigin.getD defaultCrossOrigin⟩
  else none

/-- The changes of a program's parts that show a texture. -/
def textureEdits (texts : Texts) : Option TextureRequest → List Shader.Builder.Edit
  | none => []
  | some _ =>
    [.addUniform ("sampler2D " ++ textureUniform),
     .setColor (texts.fragmentColour ++ " * texture2D(" ++ textureUniform ++ ", v_texCoord)")]

end Style

namespace Session

/-- The variables that either program refers to, those of the vertex program first. -/
def variableNames (session : Session) : List String :=
  session.fragment.variableNames.foldl Scope.mention session.vertex.variableNames

/-- The attributes that the vertex program reads: its own, and those it passes on. -/
def attributes (session : Session) : List String :=
  session.fragment.attributes.foldl Scope.mention session.vertex.attributes

/-- The helper functions of both programs; where they differ, that of the fragment program. -/
def functions (session : Session) : Table String :=
  session.vertex.functions.merge session.fragment.functions

/-- The uniforms that hold the variables. -/
def uniformEdits (session : Session) : List Shader.Builder.Edit :=
  session.variableNames.map fun name => .addUniform ("float " ++ Glsl.uniformName name)

/-- The attributes, the varyings that pass them on, and the helper functions. -/
def referenceEdits (session : Session) : List Shader.Builder.Edit :=
  session.fragment.attributes.map (fun name =>
    .addVarying ⟨Glsl.attributeName .fragment name, .float, Glsl.attributeName .vertex name⟩) ++
  session.attributes.map
    (fun name => .addAttribute ("float " ++ Glsl.attributeName .vertex name)) ++
  session.functions.map (fun entry => .addFunction entry.2)

/-- The bindings of the uniforms that hold the variables. -/
def uniformBindings (session : Session) : Table Style.Uniform :=
  Table.ofEntries (session.variableNames.map fun name => (Glsl.uniformName name, .number name))

end Session

namespace Style

/-- A compiled style: the parts of its programs, the attributes to supply for each feature in the
order of their declaration, the uniforms to supply for each drawing, and the codes of its
strings. -/
structure Compiled where
  builder : Shader.Builder
  attributes : List String
  uniforms : Table Uniform
  literals : LiteralTable

namespace Compiled

def attributeOutline (name : String) : String :=
  "AttributeBinding \x7b name: " ++ Text.quoted name ++ ", .. \x7d"

/-- The texture of an image symbol. -/
def texture? (compiled : Compiled) : Option Texture.Handle :=
  match compiled.uniforms.get? textureUniform with
  | some (.texture handle) => some handle
  | _ => none

end Compiled

/-- The settings of a compiler. -/
structure Compiler where
  registry : Registry
  /-- Where image symbols get their images from. -/
  provider : Resource.Provider
  /-- Whether images are loaded at all. -/
  loadTextures : Bool
  /-- The policy for symbols that do not state one. -/
  defaultCrossOrigin : String

/-- What compiling leads to: a compiled style or an error, the textures there are now, and the
records that were made. -/
structure Compilation where
  result : Except StyleError Compiled
  pool : Texture.Pool
  log : Log

namespace Compiler

/-- The built-in operators, with images loaded from a provider. -/
def standard (provider : Resource.Provider) : Compiler :=
  ⟨.builtin, provider, true, "anonymous"⟩

/-- Makes the texture that was asked for. -/
def bindTexture (compiler : Compiler) (pool : Texture.Pool) :
    Option TextureRequest → Option Texture.Handle × Texture.Pool
  | none => (none, pool)
  | some request =>
    let (handle, pool) :=
      if compiler.loadTextures then pool.spawn request.src request.crossOrigin
      else pool.idle request.src request.crossOrigin
    (some handle, pool)

/-- What is reported about the texture. -/
def textureRecords (compiler : Compiler) (shape : Shape) : Option TextureRequest → Log
  | none =>
    if shape = .image then [⟨.debug, "Image symbol has no src, no texture is bound"⟩] else []
  | some request =>
    if compiler.loadTextures then
      [Texture.Pool.spawnRecord compiler.provider request.src request.crossOrigin]
    else []

/-- Puts a style together from the texts of its expressions. -/
def assemble (compiler : Compiler) (shape : Shape) (style : Style) (texts : Texts)
    (session : Session) (pool : Texture.Pool) : Compilation :=
  let request := textureRequest shape style.symbol compiler.defaultCrossOrigin
  let (handle, pool) := compiler.bindTexture pool request
  let edits := texts.edits style.symbol.rotateWithView ++ session.uniformEdits ++
    textureEdits texts request ++ session.referenceEdits
  let numbers := session.uniformBindings
  let uniforms := match handle with
    | none => numbers
    | some handle => numbers.insert textureUniform (.texture handle)
  let compiled : Compiled :=
    { builder := Shader.Builder.fresh.applyAll edits
      attributes := session.attributes
      uniforms
      literals := session.literals }
  let summary := "Compiled " ++ shape.name ++ " style: " ++ toString uniforms.length ++
    " uniform(s), " ++ toString compiled.attributes.length ++ " attribute(s), " ++
    toString session.literals.size ++ " string literal(s)"
  { result := .ok compiled
    pool
    log := session.log ++ compiler.textureRecords shape request ++ [⟨.debug, summary⟩] }

/-- Compiles a style. Unless it succeeds, no texture is made. -/
def compile (compiler : Compiler) (pool : Texture.Pool) (style : Style) : Compilation :=
  match Shape.ofName? style.symbol.symbolType with
  | none => ⟨.error (.unknownSymbolType style.symbol.symbolType), pool, []⟩
  | some shape =>
    let start := Session.fresh.report ⟨.debug, "Compiling " ++ shape.name ++ " symbol style"⟩
    match lowerTexts compiler.registry shape style start with
    | .error error session => ⟨.error (.expression error), pool, session.log⟩
    | .ok texts session => compiler.assemble shape style texts session pool

/-- Compiles what was read as a style, or passes on why it could not be read. -/
def compileDocument (compiler : Compiler) (pool : Texture.Pool)
    (document : Except (Json.DocumentError ExpressionError) Style) : Compilation :=
  match document with
  | .error error => ⟨.error (.document error), pool, []⟩
  | .ok style => compiler.compile pool style

end Compiler

end Style

end PointStyle
