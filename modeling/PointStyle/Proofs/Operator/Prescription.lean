import PointStyle.Lowering.Expression
import PointStyle.Proofs.Glsl.Phrase
import PointStyle.Proofs.Operator.Vocabulary

/-! The trees that operators stand for. This is the operator table: the GLSL expression of a call,
as a tree over those of its arguments in the order in which they are written. It says nothing of
parentheses, of the order in which arguments are lowered, or of what is recorded on the way. -/
namespace PointStyle

open Glsl

instance : Inhabited (SyntaxTree Atom) := ⟨.leaf (.numeral "")⟩

/-- The kinds of interpolation, which look like calls but name no operator, with their exponents. -/
inductive Expression.Eases : Expression → Float → Prop where
  | linear : Eases (.call "linear" []) 1
  | exponential {x : Float} : (Datum.ofDouble x).isZero = false →
      Eases (.call "exponential" [.number x]) x

/-- The exponent that the compiler reads off a kind is that of the kind. -/
theorem Operator.Interpolate.eases_of_exponent {kind : Term} {power : Float}
    (h : exponent kind = .ok power) : kind.source.Eases power := by
  unfold exponent at h
  split at h
  · rename_i hSource
    rw [hSource, ← Except.ok.inj h]
    exact .linear
  · rename_i x hSource
    rw [hSource]
    split at h
    · cases h
    · rename_i hZero
      rw [← Except.ok.inj h]
      exact .exponential (Bool.eq_false_iff.mpr hZero)
  · cases h

/-- The compiler reads the exponent off every kind that has one. -/
theorem Operator.Interpolate.exponent_of_eases {kind : Term} {power : Float}
    (h : kind.source.Eases power) : exponent kind = .ok power := by
  unfold exponent
  generalize kind.source = source at h
  cases h with
  | linear => rfl
  | exponential hZero => simp [hZero]

/-- An argument of a call: what it means, and the tree it stands for under a hint. -/
structure Argument where
  term : Term
  tree : Option TypeSet → SyntaxTree Atom

namespace Builtin

def numeralTree (text : String) : SyntaxTree Atom :=
  .leaf (.numeral text)

/-- Operands joined by one operator, which takes them in from the left. -/
def chainTree (operator : BinaryOperator) : List (SyntaxTree Atom) → SyntaxTree Atom
  | [] => default
  | first :: rest => rest.foldl (.binary operator) first

def vectorTree (components : List (SyntaxTree Atom)) : SyntaxTree Atom :=
  .call ("vec" ++ toString components.length) components

/-- The components of a colour given by channels from 0 to 255 and perhaps an alpha. -/
def colourTrees : List (SyntaxTree Atom) → List (SyntaxTree Atom)
  | [red, green, blue] =>
    [.binary .divide red (numeralTree "255.0"), .binary .divide green (numeralTree "255.0"),
     .binary .divide blue (numeralTree "255.0"), numeralTree "1.0"]
  | [red, green, blue, alpha] =>
    [.binary .divide red (numeralTree "255.0"), .binary .divide green (numeralTree "255.0"),
     .binary .divide blue (numeralTree "255.0"), alpha]
  | others => others

def betweenTree : List (SyntaxTree Atom) → SyntaxTree Atom
  | [value, low, high] =>
    .binary .and (.binary .greaterOrEqual value low) (.binary .lessOrEqual value high)
  | _ => default

/-- An input named by a plain string. -/
def namedTree (atom : String → Atom) : List Argument → SyntaxTree Atom
  | [arg] =>
    match arg.term.source with
    | .string name => .leaf (atom name)
    | _ => default
  | _ => default

/-- The hint for the sides of an equality: the types they share, other than colour. -/
def sharedHint (args : List Argument) : Option TypeSet :=
  match Term.commonTypes .any (args.map (·.term)) with
  | .ok shared => some (shared &&& ~~~TypeSet.colour)
  | .error _ => none

/-- The hint for the outputs of a call: the types that they share with its own hint. -/
def outputHint (b : Builtin) (args : List Argument) (hint : Option TypeSet) : Option TypeSet :=
  match b.operator.returns (args.map (·.term)) with
  | .ok types => some (Operator.narrow types hint)
  | .error _ => none

/-! An interpolation, a match and a case make one tree of their arguments, whatever those are and
whatever stands for them: `tree` gives the tree of an argument under a hint, and what the operator
adds of its own becomes a leaf by `own`. -/

section Outputs

variable {E α : Type} (tree : E → Option TypeSet → SyntaxTree α) (own : Atom → α)

/-- The blend of two outputs over the segment between two stops. -/
def segmentTree (input power below above low high : SyntaxTree α) : SyntaxTree α :=
  .call "mix" [below, above,
    .call "pow" [
      .call "clamp" [
        .binary .divide (.binary .subtract input low) (.binary .subtract high low),
        .leaf (own (.numeral "0.0")), .leaf (own (.numeral "1.0"))],
      power]]

/-- The blends from a stop on through the stops after it. -/
def rampTree (input power : SyntaxTree α) (output : Option TypeSet) :
    SyntaxTree α → E → List (E × E) → SyntaxTree α
  | below, _, [] => below
  | below, start, (stop, value) :: rest =>
    rampTree input power output
      (segmentTree own input power below (tree value output) (tree start none) (tree stop none))
      stop rest

/-- The blends through all stops, each with its output. -/
def blendTree (input : E) (power : Float) (output : Option TypeSet) :
    List (E × E) → SyntaxTree α
  | [] => .leaf (own (.numeral ""))
  | (start, first) :: rest =>
    rampTree tree own (tree input none) (.leaf (own (.number power))) output (tree first output)
      start rest

/-- The choice of the first output for which a test of its candidate holds. -/
def choiceTree (test : SyntaxTree α → SyntaxTree α) (output : Option TypeSet) (fallback : E)
    (branches : List (E × E)) : SyntaxTree α :=
  .choice (branches.map fun branch => (test (tree branch.1 none), tree branch.2 output))
    (tree fallback output)

end Outputs

/-- An interpolation: its kind, its input, and pairs of a stop and an output. -/
def interpolationTree (output : Option TypeSet) : List Argument → SyntaxTree Atom
  | kind :: input :: stops =>
    let blend := fun power => blendTree Argument.tree id input power output (Operator.pairs stops)
    match kind.term.source with
    | .call "linear" [] => blend 1
    | .call "exponential" [.number x] => blend x
    | _ => default
  | _ => default

/-- An interpolation of a kind with an exponent has the tree of its blend. -/
theorem interpolationTree_of_eases (output : Option TypeSet) {kind input : Argument}
    {stops : List Argument} {power : Float} (h : kind.term.source.Eases power) :
    interpolationTree output (kind :: input :: stops) =
      blendTree Argument.tree id input power output (Operator.pairs stops) := by
  rw [interpolationTree]
  generalize kind.term.source = source at h
  cases h with
  | linear => rfl
  | exponential _ => rfl

/-- A match: its input, pairs of a candidate and an output, and a fallback. -/
def matchTree (output : Option TypeSet) (args : List Argument) : SyntaxTree Atom :=
  match args, args.getLast? with
  | input :: rest, some fallback =>
    choiceTree Argument.tree (.binary .equal (input.tree none)) output fallback
      (Operator.pairs rest.dropLast)
  | _, _ => default

/-- A case: pairs of a condition and an output, and a fallback. -/
def caseTree (output : Option TypeSet) (args : List Argument) : SyntaxTree Atom :=
  match args.getLast? with
  | some fallback => choiceTree Argument.tree id output fallback (Operator.pairs args.dropLast)
  | none => default

def negationTree : List Argument → SyntaxTree Atom
  | [arg] => .not (arg.tree none)
  | _ => default

/-- The tree of a call. -/
def tree (b : Builtin) (args : List Argument) (hint : Option TypeSet) : SyntaxTree Atom :=
  let numbers := args.map (·.tree (some .number))
  let truths := args.map (·.tree (some .boolean))
  let sides := args.map (·.tree (sharedHint args))
  let output := b.outputHint args hint
  match b with
  | .get => namedTree .attributeRef args
  | .var => namedTree (fun name => .uniform (Glsl.uniformName name)) args
  | .time => .leaf (.uniform "u_time")
  | .zoom => .leaf (.uniform "u_zoom")
  | .resolution => .leaf (.uniform "u_resolution")
  | .multiply => chainTree .multiply numbers
  | .divide => chainTree .divide numbers
  | .add => chainTree .add numbers
  | .subtract => chainTree .subtract numbers
  | .clamp => .call "clamp" numbers
  | .modulo => .call "mod" numbers
  | .power => .call "pow" numbers
  | .abs => .call "abs" numbers
  | .floor => .call "floor" numbers
  | .round => .call "floor" (numbers.map fun x => .binary .add x (numeralTree "0.5"))
  | .ceil => .call "ceil" numbers
  | .sin => .call "sin" numbers
  | .cos => .call "cos" numbers
  | .atan => .call "atan" numbers
  | .greater => chainTree .greater numbers
  | .greaterOrEqual => chainTree .greaterOrEqual numbers
  | .less => chainTree .less numbers
  | .lessOrEqual => chainTree .lessOrEqual numbers
  | .equal => chainTree .equal sides
  | .notEqual => chainTree .notEqual sides
  | .not => negationTree args
  | .all => chainTree .and truths
  | .any => chainTree .or truths
  | .between => betweenTree numbers
  | .array => vectorTree numbers
  | .colour => vectorTree (colourTrees numbers)
  | .interpolate => interpolationTree output args
  | .matching => matchTree output args
  | .casewise => caseTree output args

end Builtin

namespace Vocabulary

/-- The tree of a literal colour, given by channels from 0 to 255 and an alpha from 0 to 1. -/
def colourTree (red green blue alpha : Float) : SyntaxTree Atom :=
  let channel := fun x : Float => SyntaxTree.leaf (Atom.number ((Datum.ofDouble x).overNat 255))
  Builtin.vectorTree [channel red, channel green, channel blue, .leaf (.number alpha)]

/-- The tree of a literal string: its code, unless only a colour will do. -/
def stringTree (s : String) (hint : Option TypeSet) : SyntaxTree Atom :=
  if Expression.expects hint .string then .leaf (.code s)
  else
    match Colour.parse s with
    | .ok ⟨red, green, blue, alpha⟩ =>
      let channel := fun n : UInt8 => (Datum.ofInt n.toNat).toDouble
      colourTree (channel red) (channel green) (channel blue) (Colour.widen alpha)
    | .error _ => default

/-- The tree of a literal array: a colour when it can be one and a colour will do. -/
def arrayTree (xs : List Float) (hint : Option TypeSet) : SyntaxTree Atom :=
  match xs, Expression.expects hint .colour with
  | [red, green, blue], true => colourTree red green blue 1
  | [red, green, blue, alpha], true => colourTree red green blue alpha
  | xs, _ => Builtin.vectorTree (xs.map fun x => .leaf (.number x))

mutual

def tree (words : Vocabulary) : Expression → Option TypeSet → SyntaxTree Atom
  | .number x => fun _ => .leaf (.number x)
  | .bool b => fun _ => .leaf (.truth b)
  | .string s => stringTree s
  | .numberArray xs => arrayTree xs
  | .call name args => fun hint =>
    match words.word? name with
    | some b => b.tree (words.arguments args) hint
    | none => default

def arguments (words : Vocabulary) : List Expression → List Argument
  | [] => []
  | e :: rest => ⟨words.registry.term e, words.tree e⟩ :: words.arguments rest

end

end Vocabulary

end PointStyle
