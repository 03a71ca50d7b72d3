import PointStyle.Operator.Conditional
import PointStyle.Operator.Logic
import PointStyle.Operator.Vector

/-!
The built-in operators.
-/
namespace PointStyle

/-- The operators that come with the library. -/
inductive Builtin where
  | get
  | var
  | time
  | zoom
  | resolution
  | multiply
  | divide
  | add
  | subtract
  | clamp
  | modulo
  | power
  | abs
  | floor
  | round
  | ceil
  | sin
  | cos
  | atan
  | greater
  | greaterOrEqual
  | less
  | lessOrEqual
  | equal
  | notEqual
  | not
  | all
  | any
  | between
  | array
  | colour
  | interpolate
  | matching
  | casewise
deriving DecidableEq, Repr

namespace Builtin

/-- The built-in operators, family by family. -/
def list : List Builtin :=
  [.get, .var, .time, .zoom, .resolution,
   .multiply, .divide, .add, .subtract, .clamp, .modulo, .power, .abs, .floor, .round, .ceil, .sin,
   .cos, .atan,
   .greater, .greaterOrEqual, .less, .lessOrEqual, .equal, .notEqual, .not, .all, .any, .between,
   .array, .colour, .interpolate, .matching, .casewise]

/-- The name an operator is called by. -/
def name : Builtin → String
  | .get => "get"
  | .var => "var"
  | .time => "time"
  | .zoom => "zoom"
  | .resolution => "resolution"
  | .multiply => "*"
  | .divide => "/"
  | .add => "+"
  | .subtract => "-"
  | .clamp => "clamp"
  | .modulo => "%"
  | .power => "^"
  | .abs => "abs"
  | .floor => "floor"
  | .round => "round"
  | .ceil => "ceil"
  | .sin => "sin"
  | .cos => "cos"
  | .atan => "atan"
  | .greater => ">"
  | .greaterOrEqual => ">="
  | .less => "<"
  | .lessOrEqual => "<="
  | .equal => "=="
  | .notEqual => "!="
  | .not => "!"
  | .all => "all"
  | .any => "any"
  | .between => "between"
  | .array => "array"
  | .colour => "color"
  | .interpolate => "interpolate"
  | .matching => "match"
  | .casewise => "case"

def operator : Builtin → Operator
  | .get => .namedInput Lowering.attributeRef
  | .var => .namedInput Lowering.variableRef
  | .time => .viewInput "u_time"
  | .zoom => .viewInput "u_zoom"
  | .resolution => .viewInput "u_resolution"
  | .multiply => .numericChain "*"
  | .divide => .numericPair .number "/"
  | .add => .numericChain "+"
  | .subtract => .numericPair .number "-"
  | .clamp => .numericFunction "clamp" 3
  | .modulo => .numericFunction "mod" 2
  | .power => .numericFunction "pow" 2
  | .abs => .numericFunction "abs" 1
  | .floor => .numericFunction "floor" 1
  | .round => .round
  | .ceil => .numericFunction "ceil" 1
  | .sin => .numericFunction "sin" 1
  | .cos => .numericFunction "cos" 1
  | .atan => .arcTangent
  | .greater => .numericPair .boolean ">"
  | .greaterOrEqual => .numericPair .boolean ">="
  | .less => .numericPair .boolean "<"
  | .lessOrEqual => .numericPair .boolean "<="
  | .equal => .equality "=="
  | .notEqual => .equality "!="
  | .not => .negation
  | .all => .booleanChain "&&"
  | .any => .booleanChain "||"
  | .between => .between
  | .array => .numberArray
  | .colour => .colour
  | .interpolate => .interpolate
  | .matching => .matching
  | .casewise => .casewise

def ofName? (name : String) : Option Builtin :=
  list.find? (·.name = name)

end Builtin

/-- The operators that expressions may call, by name. -/
structure Registry where
  operators : Table Operator

namespace Registry

def empty : Registry := ⟨[]⟩

/-- Registers an operator, which replaces any other of the same name. -/
def register (registry : Registry) (name : String) (operator : Operator) : Registry :=
  ⟨registry.operators.insert name operator⟩

def find? (registry : Registry) (name : String) : Option Operator :=
  registry.operators.get? name

def has (registry : Registry) (name : String) : Bool :=
  registry.operators.has name

/-- The names that have an operator, sorted. -/
def names (registry : Registry) : List String :=
  registry.operators.names

/-- All built-in operators under their own names. -/
def builtin : Registry :=
  Builtin.list.foldl (fun registry b => registry.register b.name b.operator) empty

end Registry

end PointStyle
