import PointStyle.Lowering.Check

/-!
Operators that read their value from the feature, the style or the view.
-/
namespace PointStyle

namespace Operator

/-- An operator of one type set, whatever its arguments. -/
def returning (types : TypeSet) (lower : List Term → Lowering String) : Operator where
  returns := fun _ => .ok types
  lower := fun args _ => lower args

/-- A value named by its only argument. -/
def namedInput (refer : String → Lowering String) : Operator :=
  returning .any fun args => do
    match args with
    | [arg] => refer (← Lowering.check arg.identifier)
    | _ => throw (.argsCount 1 args.length)

/-- A value of the view, held by a uniform. -/
def viewInput (uniform : String) : Operator :=
  returning .number fun args => do
    Lowering.check (Term.requireCount args 0)
    return uniform

end Operator

end PointStyle
