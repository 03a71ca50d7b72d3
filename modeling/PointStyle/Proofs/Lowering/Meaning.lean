import PointStyle.Lowering.Expression
import PointStyle.Proofs.Operator.Faithful

/-! The scripts of expressions. Whatever names the built-in operators are registered under, the
meaning of an expression has a script: what it records and the phrase it gives do not depend on
the state it is lowered in. -/
namespace PointStyle

open Lowering Glsl

namespace Vocabulary

/-- The phrase of a literal colour, given by channels from 0 to 255 and an alpha from 0 to 1. -/
def colourPhrase (red green blue alpha : Float) : Phrase :=
  let channel := fun x : Float => Phrase.atom (.number ((Datum.ofDouble x).overNat 255))
  .vector [channel red, channel green, channel blue, .atom (.number alpha)]

def stringScript (s : String) (hint : Option TypeSet) : Script Phrase :=
  if Expression.expects hint .string then do
    Script.recording [.literalCode s]
    return .atom (.code s)
  else if (Expression.stringTypes s).meets .colour && Expression.expects hint .colour then do
    let colour ← Script.check ((Colour.parse s).mapError .color)
    let (red, green, blue, alpha) := colour.components
    return colourPhrase red green blue alpha
  else Script.check (.error (.unexpectedType (.string s) (hint.getD .any)))

def arrayPhrase (xs : List Float) (hint : Option TypeSet) : Except ExpressionError Phrase :=
  match xs, Expression.expects hint .colour with
  | [red, green, blue], true => .ok (colourPhrase red green blue 1)
  | [red, green, blue, alpha], true => .ok (colourPhrase red green blue alpha)
  | xs, _ =>
    if 2 ≤ xs.length ∧ xs.length ≤ 4 then .ok (.vector (xs.map fun x => .atom (.number x)))
    else .error (.arrayLength xs.length)

mutual

def script (words : Vocabulary) : Expression → Option TypeSet → Script Phrase
  | .number x => fun _ => pure (.atom (.number x))
  | .bool b => fun _ => pure (.atom (.truth b))
  | .string s => stringScript s
  | .numberArray xs => fun hint => Script.check (arrayPhrase xs hint)
  | .call name args => fun hint =>
    match words.word? name with
    | none => Script.check (.error (.unknownOperator (.call name args)))
    | some b => do
      let nodes := words.nodes args
      let count := nodes.length
      Script.recording [.trace s!"Lowering '{name}' with {count} argument(s)"]
      Plan.checked (b.plan nodes hint)

/-- The meanings of a list of expressions, each with its script. -/
def nodes (words : Vocabulary) : List Expression → List Node
  | [] => []
  | e :: rest => ⟨⟨words.registry.term e, words.tree e⟩, words.script e⟩ :: words.nodes rest

end

/-- The meaning of an expression with its script. -/
def node (words : Vocabulary) (e : Expression) : Node :=
  ⟨⟨words.registry.term e, words.tree e⟩, words.script e⟩

theorem nodes_eq_map (words : Vocabulary) (args : List Expression) :
    words.nodes args = args.map words.node := by
  induction args with
  | nil => rw [nodes, List.map_nil]
  | cons e rest ih => rw [nodes, ih, List.map_cons, node]

/-- The terms of the nodes of expressions are the meanings of these. -/
theorem terms_nodes (words : Vocabulary) (args : List Expression) :
    Node.terms (words.nodes args) = words.registry.terms args := by
  rw [nodes_eq_map, Registry.terms_eq_map, Node.terms, List.map_map]
  rfl

section Faithful

variable (stage : Stage) (codes : LiteralTable)

theorem text_colourPhrase (red green blue alpha : Float) :
    Phrase.text stage codes (colourPhrase red green blue alpha) =
      Glsl.colour red green blue alpha := by
  rw [colourPhrase, Phrase.text_vector]
  rfl

theorem lowerString_follows (s : String) (hint : Option TypeSet) :
    Follows stage codes (Phrase.text stage codes) (Expression.lowerString s hint)
      (stringScript s hint) := by
  unfold Expression.lowerString stringScript
  split
  · exact Follows.literalCode_of s
  · split
    · refine Follows.check_bind fun colour _ => ?_
      obtain ⟨red, green, blue, alpha⟩ := colour.components
      show Follows stage codes _ (pure (Glsl.colour red green blue alpha)) _
      rw [← text_colourPhrase stage codes]
      exact Follows.pure_of _
    · exact Follows.throw_of _

theorem lowerArray_follows (xs : List Float) (hint : Option TypeSet) :
    Follows stage codes (Phrase.text stage codes) (Expression.lowerArray xs hint)
      (Script.check (arrayPhrase xs hint)) := by
  fun_cases Expression.lowerArray xs hint with
  | case1 red green blue hColour =>
      rw [arrayPhrase, ← text_colourPhrase stage codes]
      · exact Follows.pure_of _
      · exact hColour
  | case2 red green blue alpha hColour =>
      rw [arrayPhrase, ← text_colourPhrase stage codes]
      · exact Follows.pure_of _
      · exact hColour
  | case3 xs hThree hFour =>
      rw [arrayPhrase, Glsl.array]
      · split
        · have hText : Glsl.vector (xs.map Glsl.number) =
              Phrase.text stage codes (.vector (xs.map fun x => .atom (.number x))) := by
            rw [Phrase.text_vector, List.map_map]
            rfl
          rw [hText]
          exact Follows.pure_of _
        · exact Follows.throw_of _
      · exact hThree
      · exact hFour

/-- Lowering a call follows its script if this is so for its arguments. -/
theorem call_follows (words : Vocabulary) (name : String) (args : List Expression)
    (hArgs : ∀ node ∈ words.nodes args, node.Faithful stage codes) :
    (words.node (.call name args)).Faithful stage codes := by
  intro hint
  unfold node Registry.term script Registry.callTerm
  rw [words.find?_eq]
  cases words.word? name with
  | none => exact Follows.throw_of _
  | some b =>
      simp only [Option.map_some, ← terms_nodes, Node.length_terms]
      exact (Follows.trace_of _).bind fun _ _ => b.follows_plan hArgs hint

mutual

/-- Lowering an expression follows its script, in either program and under every hint. -/
theorem node_faithful (words : Vocabulary) : ∀ e, (words.node e).Faithful stage codes
  | .number x => fun _ => Follows.pure_of (Phrase.atom (.number x))
  | .bool b => fun _ => Follows.pure_of (Phrase.atom (.truth b))
  | .string s => lowerString_follows stage codes s
  | .numberArray xs => lowerArray_follows stage codes xs
  | .call name args => words.call_follows stage codes name args (words.nodes_faithful args)

/-- Expressions are lowered as their scripts say. -/
theorem nodes_faithful (words : Vocabulary) :
    ∀ args, ∀ node ∈ words.nodes args, node.Faithful stage codes
  | [] => fun _ hNode => absurd hNode List.not_mem_nil
  | e :: rest => fun node hNode => by
      rw [nodes, List.mem_cons] at hNode
      rcases hNode with hHere | hNode
      · exact hHere ▸ words.node_faithful e
      · exact words.nodes_faithful rest node hNode

end

end Faithful

/-- What a lowering leaves behind and how it ends, in one equation: the state has recorded the
events of the script, and the text is that of its phrase under the final literal table. -/
theorem lower_eq (words : Vocabulary) (e : Expression) (hint : Option TypeSet) (state : State) :
    words.registry.lower e hint state =
      (words.script e hint).finish
        (Phrase.text state.scope.stage (state.recordAll (words.script e hint).events).literals)
        (state.recordAll (words.script e hint).events) :=
  words.node_faithful _ _ e hint state rfl (List.prefix_refl _)

end Vocabulary

end PointStyle
