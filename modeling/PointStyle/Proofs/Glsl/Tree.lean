/-! Syntax trees of GLSL expressions. A tree has no parentheses: grouping is its shape. -/
namespace PointStyle

namespace Glsl

/-- An operator written between its operands. -/
inductive BinaryOperator where
  | multiply
  | divide
  | add
  | subtract
  | less
  | lessOrEqual
  | greater
  | greaterOrEqual
  | equal
  | notEqual
  | and
  | or
deriving DecidableEq, Repr

namespace BinaryOperator

def symbol : BinaryOperator → String
  | .multiply => "*"
  | .divide => "/"
  | .add => "+"
  | .subtract => "-"
  | .less => "<"
  | .lessOrEqual => "<="
  | .greater => ">"
  | .greaterOrEqual => ">="
  | .equal => "=="
  | .notEqual => "!="
  | .and => "&&"
  | .or => "||"

/-- How tightly an operator binds. The conditional is at level 0, the unary operators at level 7,
and what needs no operator at level 8. -/
def level : BinaryOperator → Nat
  | .multiply | .divide => 6
  | .add | .subtract => 5
  | .less | .lessOrEqual | .greater | .greaterOrEqual => 4
  | .equal | .notEqual => 3
  | .and => 2
  | .or => 1

theorem level_pos (operator : BinaryOperator) : 0 < operator.level := by
  cases operator <;> decide

/-- Every binary operator binds less tightly than what stands alone. -/
theorem level_lt (operator : BinaryOperator) : operator.level < 7 := by
  cases operator <;> decide

end BinaryOperator

/-- A syntax tree over leaves of some kind. -/
inductive SyntaxTree (α : Type) where
  | leaf (a : α)
  | minus (operand : SyntaxTree α)
  | not (operand : SyntaxTree α)
  | binary (operator : BinaryOperator) (left right : SyntaxTree α)
  | conditional (test yes no : SyntaxTree α)
  | call (function : String) (args : List (SyntaxTree α))

namespace SyntaxTree

variable {α β : Type}

/-- The choice of the first output whose test holds. -/
def choice (branches : List (SyntaxTree α × SyntaxTree α)) (fallback : SyntaxTree α) :
    SyntaxTree α :=
  branches.foldr (fun branch rest => .conditional branch.1 branch.2 rest) fallback

mutual

/-- The tree with a tree in the place of each leaf. -/
def bind (f : α → SyntaxTree β) : SyntaxTree α → SyntaxTree β
  | .leaf a => f a
  | .minus operand => .minus (operand.bind f)
  | .not operand => .not (operand.bind f)
  | .binary operator left right => .binary operator (left.bind f) (right.bind f)
  | .conditional test yes no => .conditional (test.bind f) (yes.bind f) (no.bind f)
  | .call function args => .call function (bindAll f args)

/-- The trees of a list with a tree in the place of each leaf. -/
def bindAll (f : α → SyntaxTree β) : List (SyntaxTree α) → List (SyntaxTree β)
  | [] => []
  | first :: rest => first.bind f :: bindAll f rest

end

mutual

/-- The leaves of a tree from left to right. -/
def leaves : SyntaxTree α → List α
  | .leaf a => [a]
  | .minus operand => operand.leaves
  | .not operand => operand.leaves
  | .binary _ left right => left.leaves ++ right.leaves
  | .conditional test yes no => test.leaves ++ yes.leaves ++ no.leaves
  | .call _ args => leavesAll args

/-- The leaves of a list of trees from left to right. -/
def leavesAll : List (SyntaxTree α) → List α
  | [] => []
  | first :: rest => first.leaves ++ leavesAll rest

end

theorem mem_leavesAll {a : α} {trees : List (SyntaxTree α)} :
    a ∈ leavesAll trees ↔ ∃ tree ∈ trees, a ∈ tree.leaves := by
  induction trees with
  | nil => simp [leavesAll]
  | cons first rest ih => simp [leavesAll, ih]

end SyntaxTree

end Glsl

end PointStyle
