import PointStyle.Lowering.Expression

/-!
Sessions: the two programs of a style lowered side by side, each with its own scope, over one
literal table.
-/
namespace PointStyle

structure Session where
  vertex : Scope
  fragment : Scope
  literals : LiteralTable
  log : Log

namespace Session

/-- Two programs that have referred to nothing. -/
def fresh : Session := ⟨.empty .vertex, .empty .fragment, .empty, []⟩

def scope (session : Session) : Stage → Scope
  | .vertex => session.vertex
  | .fragment => session.fragment

/-- A session in which one program has moved on. -/
def update (session : Session) (stage : Stage) (state : Lowering.State) : Session :=
  match stage with
  | .vertex => ⟨state.scope, session.fragment, state.literals, state.log⟩
  | .fragment => ⟨session.vertex, state.scope, state.literals, state.log⟩

/-- Runs a lowering for one of the programs. What it recorded is kept when it fails. -/
def run {α : Type} (session : Session) (stage : Stage) (lowering : Lowering α) :
    Except ExpressionError α × Session :=
  match lowering ⟨session.scope stage, session.literals, session.log⟩ with
  | .ok value state => (.ok value, session.update stage state)
  | .error error state => (.error error, session.update stage state)

/-- Starts the fragment program anew. -/
def restartFragment (session : Session) : Session :=
  { session with fragment := .empty .fragment }

end Session

end PointStyle
