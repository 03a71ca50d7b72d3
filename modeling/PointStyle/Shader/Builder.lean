import PointStyle.Shader.Varying

/-!
The parts of a point symbol's programs: declarations, which are collected, and expressions, each of
which has one place and is overwritten as a whole.
-/
namespace PointStyle

namespace Shader

/-- The parts of the two programs. Uniforms and attributes are declared without their keyword and
without the semicolon, as in `float u_var_limit`. The expressions are named as the members of a
symbol are. -/
structure Builder where
  uniforms : List String
  attributes : List String
  varyings : List Varying
  functions : List String
  size : String
  rotation : String
  offset : String
  color : String
  texCoord : String
  discard : String
  rotateWithView : Bool
deriving DecidableEq, Repr

namespace Builder

/-- A white square of one pixel. -/
def fresh : Builder where
  uniforms := []
  attributes := []
  varyings := []
  functions := []
  size := "vec2(1.0)"
  rotation := "0.0"
  offset := "vec2(0.0)"
  color := "vec4(1.0)"
  texCoord := "vec4(0.0, 0.0, 1.0, 1.0)"
  discard := "false"
  rotateWithView := false

/-- A change of one part. -/
inductive Edit where
  | addUniform (declaration : String)
  | addAttribute (declaration : String)
  | addVarying (v : Varying)
  | addFunction (definition : String)
  | setSize (expression : String)
  | setRotation (expression : String)
  | setOffset (expression : String)
  | setColor (expression : String)
  | setTexCoord (expression : String)
  | setDiscard (expression : String)
  | setRotateWithView (flag : Bool)
deriving DecidableEq, Repr

def apply (b : Builder) : Edit → Builder
  | .addUniform declaration => { b with uniforms := b.uniforms ++ [declaration] }
  | .addAttribute declaration => { b with attributes := b.attributes ++ [declaration] }
  | .addVarying v => { b with varyings := b.varyings ++ [v] }
  | .addFunction definition => { b with functions := b.functions ++ [definition] }
  | .setSize expression => { b with size := expression }
  | .setRotation expression => { b with rotation := expression }
  | .setOffset expression => { b with offset := expression }
  | .setColor expression => { b with color := expression }
  | .setTexCoord expression => { b with texCoord := expression }
  | .setDiscard expression => { b with discard := expression }
  | .setRotateWithView flag => { b with rotateWithView := flag }

def applyAll (b : Builder) (edits : List Edit) : Builder :=
  edits.foldl apply b

end Builder

end Shader

end PointStyle
