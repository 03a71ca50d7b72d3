import PointStyle.LiteralTable
import PointStyle.Glsl
import PointStyle.Proofs.Glsl.Tree

/-! GLSL expressions as lowering writes them. A phrase says where each parenthesis stands, and
leaves open what depends on the program and on the literal table: the names of attributes and the
codes of strings. Its text is what lowering emits. -/
namespace PointStyle

namespace Glsl

/-- What a phrase is made of. -/
inductive Atom where
  /-- A numeral that is the same in every program. -/
  | numeral (text : String)
  /-- A number of the style. -/
  | number (x : Float)
  /-- The number that stands for a string. -/
  | code (s : String)
  | truth (b : Bool)
  | attributeRef (name : String)
  | uniform (name : String)

/-- The text of an atom in a program, with the codes of a table. -/
def Atom.text (stage : Stage) (codes : LiteralTable) : Atom → String
  | .numeral text => text
  | .number x => Glsl.number x
  | .code s => Glsl.number (LiteralTable.codeNumber ((codes.code? s).getD 0))
  | .truth b => Glsl.bool b
  | .attributeRef name => Glsl.attributeName stage name
  | .uniform name => name

/-- A GLSL expression with its parentheses. -/
inductive Phrase where
  | atom (a : Atom)
  | negation (operand : Phrase)
  | group (inner : Phrase)
  | binary (operator : BinaryOperator) (left right : Phrase)
  | conditional (test yes no : Phrase)
  | call (function : String) (args : List Phrase)

namespace Phrase

variable (stage : Stage) (codes : LiteralTable)

mutual

/-- The text of a phrase in a program, with the codes of a table. -/
def text : Phrase → String
  | .atom a => a.text stage codes
  | .negation operand => "!" ++ text operand
  | .group inner => "(" ++ text inner ++ ")"
  | .binary operator left right => text left ++ (" " ++ operator.symbol ++ " ") ++ text right
  | .conditional test yes no => text test ++ " ? " ++ text yes ++ " : " ++ text no
  | .call function args => Glsl.call function (texts args)

def texts : List Phrase → List String
  | [] => []
  | first :: rest => text first :: texts rest

end

theorem texts_eq_map (phrases : List Phrase) :
    texts stage codes phrases = phrases.map (text stage codes) := by
  induction phrases with
  | nil => rfl
  | cons first rest ih => rw [texts, ih, List.map_cons]

/-- Operands joined by one operator. Without parentheses around it, a chain takes its operands in
from the left. -/
def chain (operator : BinaryOperator) : List Phrase → Phrase
  | [] => .atom (.numeral "")
  | first :: rest => rest.foldl (.binary operator) first

/-- Joining texts one by one gives the same as joining them all. -/
theorem intercalate_cons_eq_foldl (separator first : String) (rest : List String) :
    separator.intercalate (first :: rest) =
      rest.foldl (fun text next => text ++ separator ++ next) first := by
  induction rest generalizing first with
  | nil => rw [String.intercalate_singleton, List.foldl_nil]
  | cons next rest ih =>
      rw [List.foldl_cons, ← ih, String.intercalate_cons_cons, String.append_assoc,
        String.append_assoc, String.intercalate_cons_append, String.intercalate_cons_append]

/-- Operands that are joined from the left are written one after the other. -/
theorem text_foldl_binary (operator : BinaryOperator) (first : Phrase) (rest : List Phrase) :
    text stage codes (rest.foldl (.binary operator) first) =
      (rest.map (text stage codes)).foldl
        (fun text next => text ++ (" " ++ operator.symbol ++ " ") ++ next)
          (text stage codes first) := by
  induction rest generalizing first with
  | nil => rfl
  | cons next rest ih => rw [List.foldl_cons, ih, List.map_cons, List.foldl_cons, text]

/-- A chain in parentheses is written as lowering writes chains. -/
theorem text_group_chain (operator : BinaryOperator) (operands : List Phrase) :
    text stage codes (.group (chain operator operands)) =
      Glsl.chain operator.symbol (operands.map (text stage codes)) := by
  rw [text, Glsl.chain]
  congr 2
  cases operands with
  | nil => rfl
  | cons first rest => rw [chain, text_foldl_binary, List.map_cons, intercalate_cons_eq_foldl]

theorem text_call (function : String) (args : List Phrase) :
    text stage codes (.call function args) = Glsl.call function (args.map (text stage codes)) := by
  rw [text, texts_eq_map]

def vector (components : List Phrase) : Phrase :=
  .call ("vec" ++ toString components.length) components

theorem text_vector (components : List Phrase) :
    text stage codes (vector components) = Glsl.vector (components.map (text stage codes)) := by
  rw [vector, text_call, Glsl.vector, List.length_map]

end Phrase

end Glsl

end PointStyle
