import PointStyle.Glsl
import PointStyle.Proofs.Glsl.Tree

/-! What trees say and what they are worth. A tree over leaves of any kind is written once its
leaves have texts, and has a value once its leaves have values and the operators a meaning. -/
namespace PointStyle

namespace Glsl

/-- A meaning of operators and functions on values of some kind. -/
structure Interpretation (V : Type) where
  minus : V → V
  not : V → V
  binary : BinaryOperator → V → V → V
  /-- Whether a value counts as true. -/
  holds : V → Bool
  call : String → List V → V

namespace SyntaxTree

variable {α V : Type}

/-- Whether the text of a tree could be taken apart where it stands next to an operator. -/
def isOpen : SyntaxTree α → Bool
  | .minus _ | .not _ | .binary .. => true
  | .leaf _ | .conditional .. | .call .. => false

def enclose (tree : SyntaxTree α) (text : String) : String :=
  if tree.isOpen then "(" ++ text ++ ")" else text

mutual

/-- The text of a tree, with parentheses around operands that need them and around conditionals. -/
def write (spell : α → String) : SyntaxTree α → String
  | .leaf a => spell a
  | .minus operand => "-" ++ operand.enclose (operand.write spell)
  | .not operand => "!" ++ operand.enclose (operand.write spell)
  | .binary operator left right =>
    left.enclose (left.write spell) ++ (" " ++ operator.symbol ++ " ") ++
      right.enclose (right.write spell)
  | .conditional test yes no =>
    Glsl.conditional (test.write spell) (yes.write spell) (no.write spell)
  | .call function args => Glsl.call function (writeAll spell args)

def writeAll (spell : α → String) : List (SyntaxTree α) → List String
  | [] => []
  | first :: rest => first.write spell :: writeAll spell rest

end

mutual

/-- The value of a tree, given the values of its leaves. -/
def evaluate (meaning : Interpretation V) (value : α → V) : SyntaxTree α → V
  | .leaf a => value a
  | .minus operand => meaning.minus (operand.evaluate meaning value)
  | .not operand => meaning.not (operand.evaluate meaning value)
  | .binary operator left right =>
    meaning.binary operator (left.evaluate meaning value) (right.evaluate meaning value)
  | .conditional test yes no =>
    if meaning.holds (test.evaluate meaning value) then yes.evaluate meaning value
    else no.evaluate meaning value
  | .call function args => meaning.call function (evaluateAll meaning value args)

def evaluateAll (meaning : Interpretation V) (value : α → V) : List (SyntaxTree α) → List V
  | [] => []
  | first :: rest => first.evaluate meaning value :: evaluateAll meaning value rest

end

/-- A choice is written as conditionals, each in the last branch of the one before it. -/
theorem write_choice (spell : α → String) (branches : List (SyntaxTree α × SyntaxTree α))
    (fallback : SyntaxTree α) :
    (choice branches fallback).write spell =
      branches.foldr (fun branch rest =>
        Glsl.conditional (branch.1.write spell) (branch.2.write spell) rest)
        (fallback.write spell) := by
  induction branches with
  | nil => rfl
  | cons branch rest ih => rw [choice, List.foldr_cons, write, List.foldr_cons, ← ih, choice]

/-- A choice is worth what the output of the first branch is worth whose test holds. -/
theorem evaluate_choice (meaning : Interpretation V) (value : α → V)
    (branches : List (SyntaxTree α × SyntaxTree α)) (fallback : SyntaxTree α) :
    (choice branches fallback).evaluate meaning value =
      (branches.find? fun branch => meaning.holds (branch.1.evaluate meaning value)).elim
        (fallback.evaluate meaning value) (·.2.evaluate meaning value) := by
  induction branches with
  | nil => rfl
  | cons branch rest ih =>
      rw [choice, List.foldr_cons, evaluate, List.find?_cons, ← choice, ih]
      cases meaning.holds (branch.1.evaluate meaning value) <;> rfl

end SyntaxTree

end Glsl

end PointStyle
