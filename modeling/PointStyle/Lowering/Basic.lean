import PointStyle.LiteralTable
import PointStyle.Log
import PointStyle.Scope

/-!
Lowering: turning an expression into GLSL text. A lowering reads and extends the scope of its
program and the literal table, which the programs of a style share. What it recorded before a
failure stays recorded.
-/
namespace PointStyle

structure Lowering.State where
  scope : Scope
  literals : LiteralTable
  log : Log

abbrev Lowering := EStateM ExpressionError Lowering.State

namespace Lowering

def State.fresh (stage : Stage) : State := ⟨.empty stage, .empty, []⟩

/-- A check as part of a lowering. -/
def check {α : Type} : Except ExpressionError α → Lowering α
  | .ok a => pure a
  | .error e => throw e

def stage : Lowering Stage := do
  return (← get).scope.stage

/-- Refers to an attribute of features; gives its name in the program. -/
def attributeRef (name : String) : Lowering String := do
  modify fun state => { state with scope := state.scope.addAttribute name }
  return Glsl.attributeName (← stage) name

/-- Refers to a variable of the style; gives its name in the program. -/
def variableRef (name : String) : Lowering String := do
  modify fun state => { state with scope := state.scope.addVariable name }
  return Glsl.uniformName name

def helper (name definition : String) : Lowering Unit :=
  modify fun state => { state with scope := state.scope.addFunction name definition }

/-- The code of a string as a float literal. -/
def literalCode (s : String) : Lowering String := do
  let state ← get
  let (code, literals) := state.literals.codeFor s
  set { state with literals := literals }
  return Glsl.number (LiteralTable.codeNumber code)

def trace (text : String) : Lowering Unit :=
  modify fun state => { state with log := state.log ++ [⟨.trace, text⟩] }

end Lowering

/-- An expression with its meaning under a registry of operators: the types that it may have, and
how it is lowered when types are hinted at. -/
structure Term where
  source : Expression
  types : Except ExpressionError TypeSet
  lower : Option TypeSet → Lowering String

namespace Term

def sources (terms : List Term) : List Expression :=
  terms.map (·.source)

/-- Lowers terms from left to right under one hint. -/
def lowerAll : List Term → Option TypeSet → Lowering (List String)
  | [], _ => pure []
  | term :: rest, hint => do
    let text ← term.lower hint
    let texts ← lowerAll rest hint
    return text :: texts

end Term

/-- An operator: the types of a call and how a call is lowered, given the terms it is applied to. -/
structure Operator where
  returns : List Term → Except ExpressionError TypeSet
  lower : List Term → Option TypeSet → Lowering String

end PointStyle
