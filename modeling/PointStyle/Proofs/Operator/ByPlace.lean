import PointStyle.Operator.Builtin

/-! The operators by places. Here a call does not take its arguments apart by patterns but reaches
for them by their places: the first, the last but one, every other one from the third. Such a reach
may miss, and that is told apart from the errors that are reported. With every built-in operator the
checks that come first leave room for all reaches, so none of them misses, and by places a call does
what it does by patterns. -/
namespace PointStyle

open Lowering

namespace ByPlace

/-- How a reach misses. -/
inductive Slip where
  /-- Nothing stands at the place. -/
  | outside (place length : Nat)
  /-- More is taken away from a length than it is. -/
  | underflow (length taken : Nat)
  /-- There are more numbers than slots for them. -/
  | overfull (slots length : Nat)
  /-- An interpolation has come to the end of its stops without a segment. -/
  | noSegment
deriving DecidableEq, Repr

/-- How a computation by places fails. -/
inductive Failure where
  | reported (error : ExpressionError)
  | slipped (slip : Slip)

/-- A lowering by places. -/
abbrev Reach := EStateM Failure State

variable {α β : Type}

/-- A result that is found without reaching for anything. -/
def report : Except ExpressionError α → Except Failure α
  | .ok a => .ok a
  | .error error => .error (.reported error)

def check : Except Failure α → Reach α
  | .ok a => pure a
  | .error failure => throw failure

/-- A lowering that does not reach for anything. -/
def lift (lowering : Lowering α) : Reach α := fun state =>
  match lowering state with
  | .ok a final => .ok a final
  | .error error final => .error (.reported error) final

/-- What stands at a place. -/
def item (xs : List α) (place : Nat) : Except Failure α :=
  match xs[place]? with
  | some a => .ok a
  | none => .error (.slipped (.outside place xs.length))

/-- What is left of a length. -/
def less (length taken : Nat) : Except Failure Nat :=
  if taken ≤ length then .ok (length - taken) else .error (.slipped (.underflow length taken))

/-- Every other place from the first on, before the end. -/
def places (first stop : Nat) : List Nat :=
  List.range' first ((stop + 1 - first) / 2) 2

/-- Puts elements into the first slots. -/
def fill (slots xs : List α) : Except Failure (List α) :=
  if xs.length ≤ slots.length then .ok (xs ++ slots.drop xs.length)
  else .error (.slipped (.overfull slots.length xs.length))

/-- A term whose meaning is found by places. -/
structure Operand where
  source : Expression
  types : Except Failure TypeSet
  lower : Option TypeSet → Reach String

/-- An operator that reaches for its arguments by places. -/
structure Operation where
  returns : List Operand → Except Failure TypeSet
  lower : List Operand → Option TypeSet → Reach String

def require (condition : Prop) [Decidable condition] (error : ExpressionError) :
    Except Failure Unit :=
  if condition then .ok () else .error (.reported error)

/-- An argument that may have a type. -/
def requireType (type : TypeSet) (error : Expression → ExpressionError) (arg : Operand) :
    Except Failure Unit := do
  let types ← arg.types
  require (types.meets type) (error arg.source)

def requireNumber : Operand → Except Failure Unit := requireType .number .expectedNumber

def requireBoolean : Operand → Except Failure Unit := requireType .boolean .expectedBoolean

/-- A term of which only the expression counts. -/
def bare (source : Expression) : Term := ⟨source, .ok .any, fun _ => return ""⟩

/-- Lowers the argument at a place. -/
def lowerAt (args : List Operand) (place : Nat) (hint : Option TypeSet) : Reach String := do
  let arg ← check (item args place)
  arg.lower hint

def lowerAll (args : List Operand) (hint : Option TypeSet) : Reach (List String) :=
  args.mapM (·.lower hint)

def lowerNumbers (args : List Operand) : Reach (List String) := do
  check (args.forM requireNumber)
  lowerAll args (some .number)

def lowerCount (count : Nat) (args : List Operand) : Reach (List String) := do
  check (require (args.length = count) (.argsCount count args.length))
  lowerNumbers args

/-- So many of the first texts. -/
def firstTexts (count : Nat) (texts : List String) : Except Failure (List String) :=
  (List.range count).mapM (item texts)

def returning (types : TypeSet) (lower : List Operand → Reach String) : Operation where
  returns := fun _ => .ok types
  lower := fun args _ => lower args

def namedInput (refer : String → Lowering String) : Operation :=
  returning .any fun args => do
    check (require (args.length = 1) (.argsCount 1 args.length))
    let arg ← check (item args 0)
    let name ← check (report (bare arg.source).identifier)
    lift (refer name)

def viewInput (uniform : String) : Operation :=
  returning .number fun args => do
    check (require (args.length = 0) (.argsCount 0 args.length))
    return uniform

def numericChain (operator : String) : Operation :=
  returning .number fun args => do
    check (require (2 ≤ args.length) (.argsMinCount 2 args.length))
    return Glsl.chain operator (← lowerNumbers args)

def numericPair (types : TypeSet) (operator : String) : Operation :=
  returning types fun args => do
    let texts ← lowerCount 2 args
    return Glsl.chain operator (← check (firstTexts 2 texts))

def numericFunction (function : String) (count : Nat) : Operation :=
  returning .number fun args => do
    let texts ← lowerCount count args
    return Glsl.call function (← check (firstTexts count texts))

def round : Operation :=
  returning .number fun args => do
    let texts ← lowerCount 1 args
    let operand ← check (item texts 0)
    return Glsl.call "floor" [operand ++ " + 0.5"]

/-- A number of numbers between two bounds. -/
def numericRange (types : TypeSet) (least most : Nat) (build : List String → String) : Operation :=
  returning types fun args => do
    check (require (least ≤ args.length) (.argsMinCount least args.length))
    check (require (args.length ≤ most) (.argsMaxCount most args.length))
    return build (← lowerNumbers args)

/-- The types that a set shares with the arguments at some places. -/
def commonAt (args : List Operand) : TypeSet → List Nat → Except Failure TypeSet
  | types, [] => .ok types
  | types, place :: rest => do
    let arg ← item args place
    let own ← arg.types
    commonAt args (types &&& own) rest

def equality (operator : String) : Operation :=
  returning .boolean fun args => do
    check (require (args.length = 2) (.argsCount 2 args.length))
    let shared ← check (commonAt args .any [0, 1])
    check (require (shared.isEmpty = false) (.incompatibleTypes (args.map (·.source))))
    let hint := shared &&& ~~~TypeSet.colour
    let left ← lowerAt args 0 (some hint)
    let right ← lowerAt args 1 (some hint)
    return Glsl.chain operator [left, right]

def negation : Operation :=
  returning .boolean fun args => do
    check (require (args.length = 1) (.argsCount 1 args.length))
    let arg ← check (item args 0)
    check (requireBoolean arg)
    let operand ← arg.lower none
    return "(!" ++ operand ++ ")"

def booleanChain (operator : String) : Operation :=
  returning .boolean fun args => do
    check (require (2 ≤ args.length) (.argsMinCount 2 args.length))
    check (args.forM requireBoolean)
    return Glsl.chain operator (← lowerAll args (some .boolean))

def between : Operation :=
  returning .boolean fun args => do
    let texts ← lowerCount 3 args
    let value ← check (item texts 0)
    let low ← check (item texts 1)
    let high ← check (item texts 2)
    return Glsl.chain "&&" [value ++ " >= " ++ low, value ++ " <= " ++ high]

/-- The types that a set shares with the last argument, if there is one. -/
def commonWithLast (args : List Operand) (types : TypeSet) : Except Failure TypeSet :=
  match args.getLast? with
  | some last => do
    let own ← last.types
    return types &&& own
  | none => .ok types

def outputType (args : List Operand) (types : Except Failure TypeSet) (hint : Option TypeSet) :
    Reach TypeSet := do
  let output := Operator.narrow (← check types) hint
  check (require output.isUnique (.ambiguousType (args.map (·.source))))
  return output

namespace Interpolate

def returns (args : List Operand) : Except Failure TypeSet :=
  commonAt args (.colour ||| .number) (places 3 args.length)

/-- Adds a segment for each place where one starts. The first segment lowers the output it starts
with, and the others go on from what there is. -/
def segments (args : List Operand) (input power : String) (output : TypeSet) :
    Option String → List Nat → Reach (Option String)
  | result, [] => return result
  | result, place :: rest => do
    let low ← lowerAt args place none
    let below ← match result with
      | some text => pure text
      | none => lowerAt args (place + 1) (some output)
    let high ← lowerAt args (place + 2) none
    let above ← lowerAt args (place + 3) (some output)
    segments args input power output
      (some (Operator.Interpolate.segment input power below above low high)) rest

def lower (args : List Operand) (hint : Option TypeSet) : Reach String := do
  check (require (args.length % 2 = 0) (.argsEven args.length))
  check (require (6 ≤ args.length) (.argsMinCount 6 args.length))
  let kind ← check (item args 0)
  let power := Glsl.number (← check (report (Operator.Interpolate.exponent (bare kind.source))))
  let output ← outputType args (returns args) hint
  let input ← lowerAt args 1 none
  let stop ← check (less args.length 2)
  match ← segments args input power output none (places 2 stop) with
  | some text => return text
  | none => throw (.slipped .noSegment)

end Interpolate

/-- Puts the pair at a place in front of the choice between those after it. -/
def addChoice (args : List Operand) (test : String → String) (output : TypeSet) (otherwise : String)
    (place : Nat) : Reach String := do
  let candidate ← lowerAt args place none
  let value ← lowerAt args (place + 1) (some output)
  return Glsl.conditional (test candidate) value otherwise

/-- A choice of pairs from a place on, from the last pair to the first, after the fallback. -/
def choices (args : List Operand) (test : String → String) (output : TypeSet) (first : Nat) :
    Reach String := do
  let last ← check (less args.length 1)
  let fallback ← lowerAt args last (some output)
  (places first last).reverse.foldlM (addChoice args test output) fallback

namespace Match

def returns (args : List Operand) : Except Failure TypeSet := do
  let types ← commonAt args .any (places 2 args.length)
  commonWithLast args types

def lower (args : List Operand) (hint : Option TypeSet) : Reach String := do
  check (require (args.length % 2 = 0) (.argsEven args.length))
  check (require (4 ≤ args.length) (.argsMinCount 4 args.length))
  let output ← outputType args (returns args) hint
  let input ← lowerAt args 0 none
  choices args (fun candidate => input ++ " == " ++ candidate) output 1

end Match

namespace Case

def returns (args : List Operand) : Except Failure TypeSet := do
  let types ← commonAt args .any (places 1 args.length)
  commonWithLast args types

def lower (args : List Operand) (hint : Option TypeSet) : Reach String := do
  check (require (args.length % 2 = 1) (.argsOdd args.length))
  check (require (3 ≤ args.length) (.argsMinCount 3 args.length))
  let output ← outputType args (returns args) hint
  check (((Operator.everyOther args).take (args.length / 2)).forM requireBoolean)
  choices args id output 0

end Case

end ByPlace

open ByPlace in
/-- What an operator does by places. -/
def Builtin.byPlace : Builtin → Operation
  | .get => namedInput Lowering.attributeRef
  | .var => namedInput Lowering.variableRef
  | .time => viewInput "u_time"
  | .zoom => viewInput "u_zoom"
  | .resolution => viewInput "u_resolution"
  | .multiply => numericChain "*"
  | .divide => numericPair .number "/"
  | .add => numericChain "+"
  | .subtract => numericPair .number "-"
  | .clamp => numericFunction "clamp" 3
  | .modulo => numericFunction "mod" 2
  | .power => numericFunction "pow" 2
  | .abs => numericFunction "abs" 1
  | .floor => numericFunction "floor" 1
  | .round => ByPlace.round
  | .ceil => numericFunction "ceil" 1
  | .sin => numericFunction "sin" 1
  | .cos => numericFunction "cos" 1
  | .atan => numericRange .number 1 2 (Glsl.call "atan")
  | .greater => numericPair .boolean ">"
  | .greaterOrEqual => numericPair .boolean ">="
  | .less => numericPair .boolean "<"
  | .lessOrEqual => numericPair .boolean "<="
  | .equal => equality "=="
  | .notEqual => equality "!="
  | .not => negation
  | .all => booleanChain "&&"
  | .any => booleanChain "||"
  | .between => ByPlace.between
  | .array => numericRange .numberArray 2 4 Glsl.vector
  | .colour => numericRange .colour 3 4 fun texts => Glsl.vector (Operator.colourComponents texts)
  | .interpolate => ⟨Interpolate.returns, Interpolate.lower⟩
  | .matching => ⟨Match.returns, Match.lower⟩
  | .casewise => ⟨Case.returns, Case.lower⟩

end PointStyle
