/-!
The shapes of point symbols.
-/
namespace PointStyle

namespace Style

/-- The shape of a symbol. -/
inductive Shape where
  | square
  | circle
  | triangle
  | image
deriving DecidableEq, Repr

namespace Shape

def all : List Shape := [.square, .circle, .triangle, .image]

def name : Shape → String
  | .square => "square"
  | .circle => "circle"
  | .triangle => "triangle"
  | .image => "image"

def ofName? (name : String) : Option Shape :=
  all.find? (·.name = name)

/-- Whether the edge of the shape depends on how large it is drawn. -/
def needsVisibleSize : Shape → Bool
  | .square | .image => false
  | .circle | .triangle => true

/-- A GLSL expression for how opaque the shape is at a point of its quad. The edges of a shape that
does not fill its quad are smoothed over a few pixels, so it needs the size as an expression. -/
def opacityMask (shape : Shape) (size : String) : String :=
  match shape with
  | .square | .image => "1.0"
  | .circle =>
    "(1.0-smoothstep(1.-4./" ++ size ++ ",1.,dot(v_quadCoord-.5,v_quadCoord-.5)*4.))"
  | .triangle =>
    let point := "(v_quadCoord*2.-1.)"
    let angle := "(atan(" ++ point ++ ".x," ++ point ++ ".y))"
    "(1.0-smoothstep(.5-3./" ++ size ++ ",.5,cos(floor(.5+" ++ angle ++
      "/2.094395102)*2.094395102-" ++
      angle ++ ")*length(" ++ point ++ ")))"

end Shape

end Style

end PointStyle
