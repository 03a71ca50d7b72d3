import PointStyle.Expression.Document
import PointStyle.Json.Record

/-!
Style documents: an optional filter, the variables, and the symbol that is drawn for each feature.
Reading keeps what was left out apart from what was given, so that writing gives the same document.
-/
namespace PointStyle

namespace Style

/-- How a symbol is drawn. The fields are named as the members of a document are, with `color` as it
is spelled there. Expressions that are left out have defaults. -/
structure Symbol where
  symbolType : String
  size : Option Expression
  color : Option Expression
  opacity : Option Expression
  rotation : Option Expression
  offset : Option Expression
  textureCoord : Option Expression
  rotateWithView : Bool
  src : Option String
  crossOrigin : Option String

namespace Symbol

/-- A symbol of which only the shape is given. -/
def ofType (symbolType : String) : Symbol where
  symbolType := symbolType
  size := none
  color := none
  opacity := none
  rotation := none
  offset := none
  textureCoord := none
  rotateWithView := false
  src := none
  crossOrigin := none

/-- A member that is left out when it has no value. -/
def member {α : Type} (name : String) (write : α → Json) (value : Option α) :
    List (String × Json) :=
  (value.map fun a => (name, write a)).toList

def toJson (symbol : Symbol) : Json :=
  .object <|
    [("symbolType", .string symbol.symbolType)] ++
    member "size" Expression.toJson symbol.size ++
    member "color" Expression.toJson symbol.color ++
    member "opacity" Expression.toJson symbol.opacity ++
    member "rotation" Expression.toJson symbol.rotation ++
    member "offset" Expression.toJson symbol.offset ++
    member "textureCoord" Expression.toJson symbol.textureCoord ++
    [("rotateWithView", .bool symbol.rotateWithView)] ++
    member "src" Json.string symbol.src ++
    member "crossOrigin" Json.string symbol.crossOrigin

/-- A symbol of which some members have been read. -/
structure Partial where
  symbolType : Option String
  size : Option (Option Expression)
  color : Option (Option Expression)
  opacity : Option (Option Expression)
  rotation : Option (Option Expression)
  offset : Option (Option Expression)
  textureCoord : Option (Option Expression)
  rotateWithView : Option Bool
  src : Option (Option String)
  crossOrigin : Option (Option String)

end Symbol

/-- An expression in a document. -/
def expressionReader : Json.Reader ExpressionError Expression :=
  Json.Reader.json.andThen Expression.ofJson

/-- An expression that may be left out. -/
def optionalExpression : Json.Reader ExpressionError (Option Expression) :=
  expressionReader.optional

namespace Symbol

def record : Json.Record ExpressionError Partial Symbol where
  name := "LiteralSymbolStyle"
  fields := [
    .storing "symbolType" true Partial.symbolType (fun known x => { known with symbolType := x })
      Json.Reader.string,
    .storing "size" false Partial.size (fun known x => { known with size := x }) optionalExpression,
    .storing "color" false Partial.color (fun known x => { known with color := x })
      optionalExpression,
    .storing "opacity" false Partial.opacity (fun known x => { known with opacity := x })
      optionalExpression,
    .storing "rotation" false Partial.rotation (fun known x => { known with rotation := x })
      optionalExpression,
    .storing "offset" false Partial.offset (fun known x => { known with offset := x })
      optionalExpression,
    .storing "textureCoord" false Partial.textureCoord
      (fun known x => { known with textureCoord := x }) optionalExpression,
    .storing "rotateWithView" false Partial.rotateWithView
      (fun known x => { known with rotateWithView := x }) Json.Reader.bool,
    .storing "src" false Partial.src (fun known x => { known with src := x })
      Json.Reader.string.optional,
    .storing "crossOrigin" false Partial.crossOrigin
      (fun known x => { known with crossOrigin := x })
      Json.Reader.string.optional]
  blank := ⟨none, none, none, none, none, none, none, none, none, none⟩
  build := fun known =>
    match known.symbolType with
    | none => .error "symbolType"
    | some symbolType => .ok {
        symbolType := symbolType
        size := known.size.join
        color := known.color.join
        opacity := known.opacity.join
        rotation := known.rotation.join
        offset := known.offset.join
        textureCoord := known.textureCoord.join
        rotateWithView := known.rotateWithView.getD false
        src := known.src.join
        crossOrigin := known.crossOrigin.join }

end Symbol

end Style

/-- The values of variables, by name. -/
abbrev Variables := Table Json

/-- A style: which features are drawn, the variables that expressions may use, and the symbol. -/
structure Style where
  filter : Option Expression
  variableValues : Variables
  symbol : Style.Symbol

namespace Style

def toJson (style : Style) : Json :=
  .object <|
    Symbol.member "filter" Expression.toJson style.filter ++
    [("variables", .object style.variableValues), ("symbol", style.symbol.toJson)]

/-- A style of which some members have been read. -/
structure Partial where
  filter : Option (Option Expression)
  variableValues : Option Variables
  symbol : Option Symbol

def record : Json.Record ExpressionError Partial Style where
  name := "LiteralStyle"
  fields := [
    .storing "filter" false Partial.filter (fun known x => { known with filter := x })
      optionalExpression,
    .storing "variables" false Partial.variableValues
      (fun known x => { known with variableValues := x })
      Json.Reader.table,
    .storing "symbol" true Partial.symbol (fun known x => { known with symbol := x })
      Symbol.record.read]
  blank := ⟨none, none, none⟩
  build := fun known =>
    match known.symbol with
    | none => .error "symbol"
    | some symbol => .ok ⟨known.filter.join, known.variableValues.getD [], symbol⟩

def ofJson (value : Json) : Except (Json.DocumentError ExpressionError) Style :=
  record.read.ofJson value

def ofText (text : String) : Except (Json.DocumentError ExpressionError) Style :=
  record.read.ofText text

end Style

end PointStyle
