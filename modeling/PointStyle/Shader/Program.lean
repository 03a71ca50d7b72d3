import PointStyle.Glsl
import PointStyle.Log
import PointStyle.Shader.Builder

/-!
The texts of the two programs, as lists of lines. With hit detection, a program also carries the
colour by which a symbol is picked, on lines of its own.
-/
namespace PointStyle

namespace Shader

/-- The line every program starts with. -/
def precision : String := "precision mediump float;"

/-- The uniforms of the view that both programs read. -/
def viewUniforms : List String :=
  ["uniform float u_time;", "uniform float u_zoom;", "uniform float u_resolution;"]

def vertexUniforms : List String :=
  ["uniform mat4 u_projectionMatrix;",
   "uniform mat4 u_offsetScaleMatrix;",
   "uniform mat4 u_offsetRotateMatrix;"] ++ viewUniforms

def vertexAttributes : List String :=
  ["attribute vec2 a_position;", "attribute float a_index;"]

/-- The varyings of every pair of programs. -/
def quadVaryings : List String :=
  ["varying vec2 v_texCoord;", "varying vec2 v_quadCoord;"]

/-- Rotates the corner selected by the index around the anchor of the symbol. -/
def quadCorners : List String :=
  ["  float offsetX;",
   "  float offsetY;",
   "  if (a_index == 0.0) \x7b",
   "    offsetX = (offset.x - halfSize.x) * cos(angle) + (offset.y - halfSize.y) * sin(angle);",
   "    offsetY = (offset.y - halfSize.y) * cos(angle) - (offset.x - halfSize.x) * sin(angle);",
   "  \x7d else if (a_index == 1.0) \x7b",
   "    offsetX = (offset.x + halfSize.x) * cos(angle) + (offset.y - halfSize.y) * sin(angle);",
   "    offsetY = (offset.y - halfSize.y) * cos(angle) - (offset.x + halfSize.x) * sin(angle);",
   "  \x7d else if (a_index == 2.0) \x7b",
   "    offsetX = (offset.x + halfSize.x) * cos(angle) + (offset.y + halfSize.y) * sin(angle);",
   "    offsetY = (offset.y + halfSize.y) * cos(angle) - (offset.x + halfSize.x) * sin(angle);",
   "  \x7d else \x7b",
   "    offsetX = (offset.x - halfSize.x) * cos(angle) + (offset.y + halfSize.y) * sin(angle);",
   "    offsetY = (offset.y + halfSize.y) * cos(angle) - (offset.x - halfSize.x) * sin(angle);",
   "  \x7d",
   "  vec4 offsets = offsetMatrix * vec4(offsetX, offsetY, 0.0, 0.0);",
   "  gl_Position = u_projectionMatrix * vec4(a_position, 0.0, 1.0) + offsets;"]

/-- Gives the corner its place in the texture and in the quad. -/
def quadTexCoords : List String :=
  ["  float u = a_index == 0.0 || a_index == 3.0 ? texCoord.s : texCoord.p;",
   "  float v = a_index == 2.0 || a_index == 3.0 ? texCoord.t : texCoord.q;",
   "  v_texCoord = vec2(u, v);",
   "  u = a_index == 0.0 || a_index == 3.0 ? 0.0 : 1.0;",
   "  v = a_index == 2.0 || a_index == 3.0 ? 0.0 : 1.0;",
   "  v_quadCoord = vec2(u, v);"]

/-- The attribute that holds the colour a symbol is picked by. -/
def hitAttribute : String := "attribute vec4 a_hitColor;"

/-- The varying that passes that colour on. -/
def hitVarying : String := "varying vec4 v_hitColor;"

/-- The line that passes that colour on. -/
def hitAssignment : String := "  v_hitColor = a_hitColor;"

/-- Drops fragments that are nearly transparent, and draws the others in that colour. -/
def hitTail : List String :=
  ["  if (gl_FragColor.a < 0.1) \x7b discard; \x7d", "  gl_FragColor = v_hitColor;"]

def mainOpen : String := "void main(void) \x7b"

def mainClose : String := "\x7d"

/-- Lines that stand only in programs for hit detection. -/
def onlyFor (hit : Bool) (lines : List String) : List String :=
  if hit then lines else []

namespace Builder

/-- The matrix that places the corners: it includes the rotation of the view only on request. -/
def offsetMatrix (b : Builder) : String :=
  if b.rotateWithView then "u_offsetScaleMatrix * u_offsetRotateMatrix" else "u_offsetScaleMatrix"

def uniformLines (b : Builder) : List String :=
  b.uniforms.map fun declaration => "uniform " ++ declaration ++ ";"

def attributeLines (b : Builder) : List String :=
  b.attributes.map fun declaration => "attribute " ++ declaration ++ ";"

def varyingLines (b : Builder) : List String :=
  b.varyings.map Varying.declaration

/-- The parts of the vertex program; a part may hold line breaks of its own. -/
def vertexLines (b : Builder) (hit : Bool) : List String :=
  [precision] ++ vertexUniforms ++ b.uniformLines ++ vertexAttributes ++ b.attributeLines ++
    onlyFor hit [hitAttribute] ++ quadVaryings ++ b.varyingLines ++ onlyFor hit [hitVarying] ++
    b.functions ++
    [mainOpen,
     "  mat4 offsetMatrix = " ++ b.offsetMatrix ++ ";",
     "  vec2 halfSize = " ++ b.size ++ " * 0.5;",
     "  vec2 offset = " ++ b.offset ++ ";",
     "  float angle = " ++ b.rotation ++ ";"] ++
    quadCorners ++ ["  vec4 texCoord = " ++ b.texCoord ++ ";"] ++ quadTexCoords ++
    b.varyings.map Varying.assignment ++ onlyFor hit [hitAssignment] ++ [mainClose]

/-- The parts of the fragment program. -/
def fragmentLines (b : Builder) (hit : Bool) : List String :=
  [precision] ++ viewUniforms ++ b.uniformLines ++ quadVaryings ++ b.varyingLines ++
    onlyFor hit [hitVarying] ++ b.functions ++
    [mainOpen,
     "  if (" ++ b.discard ++ ") \x7b discard; \x7d",
     "  gl_FragColor = " ++ b.color ++ ";",
     "  gl_FragColor.rgb *= gl_FragColor.a;"] ++
    onlyFor hit hitTail ++ [mainClose]

def program (b : Builder) (stage : Stage) (hit : Bool) : String :=
  "\n".intercalate <| match stage with
    | .vertex => b.vertexLines hit
    | .fragment => b.fragmentLines hit

/-- What is reported when a program is written. -/
def programRecord (stage : Stage) (hit : Bool) : Log.Record :=
  let kind := match stage with
    | .vertex => "vertex"
    | .fragment => "fragment"
  ⟨.trace, "Rendering symbol " ++ kind ++ " shader (hit detection: " ++ Glsl.bool hit ++ ")"⟩

end Builder

end Shader

end PointStyle
