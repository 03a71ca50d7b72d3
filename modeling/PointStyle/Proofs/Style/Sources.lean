import PointStyle.Style.Compile

/-! What a style asks for. The specification of a style is written from its document alone: the
shape by its name, and for each field the expression that is given, or the default that stands for
one that is left out. That the compiler reads the document in this way is said once, by
`Shape.ofName?_eq_some_iff` and `Symbol.fields_eq`. -/
namespace PointStyle

namespace Style

namespace Shape

/-- The shapes and the names that documents give them. -/
inductive Named : Shape → String → Prop where
  | square : Named .square "square"
  | circle : Named .circle "circle"
  | triangle : Named .triangle "triangle"
  | image : Named .image "image"

theorem named_name (shape : Shape) : shape.Named shape.name := by
  cases shape <;> constructor

/-- The compiler finds the shape of each name. -/
theorem ofName?_eq_some_iff {shape : Shape} {name : String} :
    ofName? name = some shape ↔ shape.Named name := by
  constructor
  · intro hFound
    have hName := List.find?_some hFound
    obtain rfl : shape.name = name := of_decide_eq_true hName
    exact shape.named_name
  · intro hNamed
    cases hNamed <;> decide

/-- The compiler knows the four names and no other. -/
theorem ofName?_eq_none_iff {name : String} :
    ofName? name = none ↔ name ∉ ["square", "circle", "triangle", "image"] := by
  rw [ofName?, List.find?_eq_none]
  simp [all, Shape.name, eq_comm]

theorem exists_named_iff {name : String} :
    (∃ shape : Shape, shape.Named name) ↔ name ∈ ["square", "circle", "triangle", "image"] := by
  simp only [← ofName?_eq_some_iff, ← Option.isSome_iff_exists, Option.isSome_iff_ne_none, ne_eq,
    ofName?_eq_none_iff, Decidable.not_not]

/-- The edges of circles and triangles depend on the size, and no others. -/
theorem needsVisibleSize_iff {shape : Shape} :
    shape.needsVisibleSize ↔ shape = .circle ∨ shape = .triangle := by
  cases shape <;> decide

end Shape

/-- An expression of a style, with the program that it is lowered for first and the types that are
asked of it. -/
structure Field where
  stage : Stage
  source : Expression
  types : TypeSet

/-- The fields of a symbol in the order in which they are lowered. -/
def Symbol.fields (symbol : Symbol) : List Field :=
  [⟨.vertex, symbol.size.getD (.number 1), .numberArray ||| .number⟩,
   ⟨.vertex, symbol.offset.getD (.numberArray [0, 0]), .numberArray⟩,
   ⟨.vertex, symbol.textureCoord.getD (.numberArray [0, 0, 1, 1]), .numberArray⟩,
   ⟨.vertex, symbol.rotation.getD (.number 0), .number⟩,
   ⟨.fragment, symbol.color.getD (.string "white"), .colour⟩,
   ⟨.fragment, symbol.opacity.getD (.number 1), .number⟩]

/-- These are the expressions that the compiler lowers, and the types that it asks of them. -/
theorem Symbol.fields_eq (symbol : Symbol) : symbol.fields =
    [⟨.vertex, symbol.sizeOrDefault, sizeTypes⟩, ⟨.vertex, symbol.offsetOrDefault, .numberArray⟩,
     ⟨.vertex, symbol.textureCoordOrDefault, .numberArray⟩,
     ⟨.vertex, symbol.rotationOrDefault, .number⟩, ⟨.fragment, symbol.colourOrDefault, .colour⟩,
     ⟨.fragment, symbol.opacityOrDefault, .number⟩] := rfl

/-- The fields of a style, of which the filter comes last. -/
def fields (style : Style) : List Field :=
  style.symbol.fields ++ (style.filter.map fun filter => ⟨.fragment, filter, .boolean⟩).toList

/-- The expressions that go into the vertex program. -/
def vertexSources (style : Style) : List Expression :=
  [style.symbol.size.getD (.number 1), style.symbol.offset.getD (.numberArray [0, 0]),
   style.symbol.textureCoord.getD (.numberArray [0, 0, 1, 1]),
   style.symbol.rotation.getD (.number 0)]

/-- The expressions that go into the fragment program. The edges of circles and triangles depend on
the size. -/
def fragmentSources (shape : Shape) (style : Style) : List Expression :=
  [style.symbol.color.getD (.string "white"), style.symbol.opacity.getD (.number 1)] ++
    (if shape = .circle ∨ shape = .triangle then [style.symbol.size.getD (.number 1)] else []) ++
    style.filter.toList

end Style

end PointStyle
