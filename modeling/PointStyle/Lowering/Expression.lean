import PointStyle.Operator.Builtin

/-!
The meaning of expressions under a registry of operators. It is defined by recursion on the
expression: a call means what its operator makes of the meanings of its arguments.
-/
namespace PointStyle

namespace Expression

/-- The types of a literal string: it is also a colour when it reads as one. -/
def stringTypes (s : String) : TypeSet :=
  if Colour.isColour s then .colour ||| .string else .string

/-- The types of a literal array: three or four numbers are also a colour. -/
def arrayTypes (xs : List Float) : TypeSet :=
  if xs.length = 3 ∨ xs.length = 4 then .colour ||| .numberArray else .numberArray

/-- Whether a hint leaves room for a type: there is none, or it is that type alone. -/
def expects (hint : Option TypeSet) (types : TypeSet) : Bool :=
  match hint with
  | none => true
  | some hinted => hinted == types

/-- Lowers a literal string, to its code unless only a colour will do. -/
def lowerString (s : String) (hint : Option TypeSet) : Lowering String :=
  if expects hint .string then Lowering.literalCode s
  else if (stringTypes s).meets .colour && expects hint .colour then do
    let colour ← Lowering.check ((Colour.parse s).mapError .color)
    let (red, green, blue, alpha) := colour.components
    return Glsl.colour red green blue alpha
  else throw (.unexpectedType (.string s) (hint.getD .any))

/-- Lowers a literal array, to a colour when it can be one and a colour will do. -/
def lowerArray (xs : List Float) (hint : Option TypeSet) : Lowering String :=
  match xs, expects hint .colour with
  | [red, green, blue], true => return Glsl.colour red green blue 1
  | [red, green, blue, alpha], true => return Glsl.colour red green blue alpha
  | xs, _ => Lowering.check (Glsl.array xs)

end Expression

namespace Registry

/-- A call of an operator, or of a name that has none. -/
def callTerm (registry : Registry) (name : String) (source : Expression) (args : List Term) :
    Term :=
  match registry.find? name with
  | none =>
    { source
      types := .error (.unknownOperator source)
      lower := fun _ => throw (.unknownOperator source) }
  | some operator =>
    { source
      types := operator.returns args
      lower := fun hint => do
        let count := args.length
        Lowering.trace s!"Lowering '{name}' with {count} argument(s)"
        operator.lower args hint }

mutual

/-- The meaning of an expression. -/
def term (registry : Registry) : Expression → Term
  | .number x => ⟨.number x, .ok .number, fun _ => return Glsl.number x⟩
  | .bool b => ⟨.bool b, .ok .boolean, fun _ => return Glsl.bool b⟩
  | .string s => ⟨.string s, .ok (Expression.stringTypes s), Expression.lowerString s⟩
  | .numberArray xs => ⟨.numberArray xs, .ok (Expression.arrayTypes xs), Expression.lowerArray xs⟩
  | .call name args => registry.callTerm name (.call name args) (registry.terms args)

def terms (registry : Registry) : List Expression → List Term
  | [] => []
  | e :: rest => registry.term e :: registry.terms rest

end

def infer (registry : Registry) (e : Expression) : Except ExpressionError TypeSet :=
  (registry.term e).types

def lower (registry : Registry) (e : Expression) (hint : Option TypeSet) : Lowering String :=
  (registry.term e).lower hint

theorem terms_eq_map (registry : Registry) (args : List Expression) :
    registry.terms args = args.map registry.term := by
  induction args with
  | nil => rfl
  | cons e rest ih => simp [terms, ih]

theorem source_term (registry : Registry) (e : Expression) : (registry.term e).source = e := by
  cases e with
  | call name args => rw [term, callTerm]; split <;> rfl
  | _ => rw [term]

end Registry

end PointStyle
