import PointStyle.Lowering.Basic

/-!
The checks that operators make of their arguments.
-/
namespace PointStyle

namespace Term

def requireCount (args : List Term) (count : Nat) : Except ExpressionError Unit :=
  if args.length = count then .ok () else .error (.argsCount count args.length)

def requireAtLeast (args : List Term) (count : Nat) : Except ExpressionError Unit :=
  if args.length < count then .error (.argsMinCount count args.length) else .ok ()

def requireAtMost (args : List Term) (count : Nat) : Except ExpressionError Unit :=
  if count < args.length then .error (.argsMaxCount count args.length) else .ok ()

def requireEven (args : List Term) : Except ExpressionError Unit :=
  if args.length % 2 = 0 then .ok () else .error (.argsEven args.length)

def requireOdd (args : List Term) : Except ExpressionError Unit :=
  if args.length % 2 = 0 then .error (.argsOdd args.length) else .ok ()

def requireNumber (arg : Term) : Except ExpressionError Unit := do
  let types ← arg.types
  if types.meets .number then return else throw (.expectedNumber arg.source)

/-- Arguments that may all be numbers; the first that may not is reported. -/
def requireNumbers : List Term → Except ExpressionError Unit
  | [] => .ok ()
  | arg :: rest => do
    arg.requireNumber
    requireNumbers rest

def requireBoolean (arg : Term) : Except ExpressionError Unit := do
  let types ← arg.types
  if types.meets .boolean then return else throw (.expectedBoolean arg.source)

def requireBooleans : List Term → Except ExpressionError Unit
  | [] => .ok ()
  | arg :: rest => do
    arg.requireBoolean
    requireBooleans rest

/-- The name that an argument spells out. -/
def identifier (arg : Term) : Except ExpressionError String :=
  match arg.source with
  | .string name => .ok name
  | other => .error (.expectedIdentifier other)

/-- A type set, inferred from the arguments, of exactly one type. -/
def requireUnique (args : List Term) (types : TypeSet) : Except ExpressionError Unit :=
  if types.isUnique then .ok () else .error (.ambiguousType (sources args))

/-- The types that a set shares with all terms. -/
def commonTypes (types : TypeSet) : List Term → Except ExpressionError TypeSet
  | [] => .ok types
  | term :: rest => do
    let own ← term.types
    commonTypes (types &&& own) rest

section Counts

variable {args : List Term} {count : Nat} {u : Unit}

theorem length_of_requireCount (h : requireCount args count = .ok u) : args.length = count := by
  unfold requireCount at h
  split at h
  · assumption
  · cases h

theorem le_length_of_requireAtLeast (h : requireAtLeast args count = .ok u) :
    count ≤ args.length := by
  unfold requireAtLeast at h
  split at h
  · cases h
  · omega

theorem length_le_of_requireAtMost (h : requireAtMost args count = .ok u) :
    args.length ≤ count := by
  unfold requireAtMost at h
  split at h
  · cases h
  · omega

theorem even_of_requireEven (h : requireEven args = .ok u) : args.length % 2 = 0 := by
  unfold requireEven at h
  split at h
  · assumption
  · cases h

theorem odd_of_requireOdd (h : requireOdd args = .ok u) : args.length % 2 = 1 := by
  unfold requireOdd at h
  split at h
  · cases h
  · omega

end Counts

end Term

end PointStyle
