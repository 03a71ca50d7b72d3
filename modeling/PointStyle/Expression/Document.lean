import PointStyle.Expression.Error

/-!
Reading expressions from JSON.
-/
namespace PointStyle

namespace Expression

mutual

/-- Reads an expression. An array of numbers only is a literal array, even when it is empty; any
other array is a call. The first value at fault is reported, an array before its elements. -/
def ofJson : Json → Except ExpressionError Expression
  | .number n => .ok (.number n.toDouble)
  | .bool b => .ok (.bool b)
  | .string s => .ok (.string s)
  | .array items =>
    match items.mapM Json.double? with
    | some numbers => .ok (.numberArray numbers)
    | none =>
      match items with
      | .string operator :: args => (ofItems args).map (.call operator)
      | _ => .error (.expectedOperator (.array items))
  | .null => .error (.unhandledValue .null)
  | .object members => .error (.unhandledValue (.object members))

def ofItems : List Json → Except ExpressionError (List Expression)
  | [] => .ok []
  | item :: rest => do
    let first ← ofJson item
    let others ← ofItems rest
    return first :: others

end

end Expression

end PointStyle
