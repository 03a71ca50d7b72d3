import PointStyle.Proofs.Glsl.Phrase
import PointStyle.Proofs.Lowering.Script

/-! Lowerings that follow scripts. The rules here take a lowering apart along its steps; they are
all that the proofs about single operators use of states. -/
namespace PointStyle

namespace Lowering

open Glsl

/-- The lowering does what the script says, from every state of the stage. The values it gives are
those of the script, shown with the codes of any table that extends the one it ends with. -/
def Follows (stage : Stage) (codes : LiteralTable) {α β : Type} (render : α → β)
    (lowering : Lowering β) (script : Script α) : Prop :=
  ∀ state : State, state.scope.stage = stage →
    (state.recordAll script.events).literals.strings <+: codes.strings →
    lowering state = script.finish render (state.recordAll script.events)

namespace Follows

variable {stage : Stage} {codes : LiteralTable} {α β γ δ : Type} {render : α → β} {render' : γ → δ}

theorem pure_of (a : α) : Follows stage codes render (pure (render a)) (pure a) := by
  intro state _ _
  rfl

theorem throw_of (error : ExpressionError) :
    Follows stage codes render (throw error) (Script.check (.error error)) := by
  intro state _ _
  rfl

/-- A lowering that goes on follows the script that goes on. -/
theorem bind {lowering : Lowering β} {script : Script α} {next : β → Lowering δ}
    {next' : α → Script γ} (hFirst : Follows stage codes render lowering script)
    (hNext : ∀ a, script.outcome = .ok a →
      Follows stage codes render' (next (render a)) (next' a)) :
    Follows stage codes render' (lowering >>= next) (script >>= next') := by
  intro state hStage hCodes
  show EStateM.bind lowering next state = _
  cases hOutcome : script.outcome with
  | error error =>
      rw [Script.bind_eq_of_error hOutcome] at hCodes ⊢
      rw [EStateM.bind, hFirst state hStage hCodes, Script.finish, hOutcome]
      rfl
  | ok a =>
      rw [Script.bind_eq_of_ok hOutcome] at hCodes ⊢
      rw [State.recordAll_append] at hCodes ⊢
      -- The codes the first part needs are among those of the whole.
      have hFirstCodes := (State.strings_isPrefix_recordAll _ _).trans hCodes
      rw [EStateM.bind, hFirst state hStage hFirstCodes, Script.finish, hOutcome]
      exact hNext a hOutcome _ (by rw [State.stage_recordAll, hStage]) hCodes

theorem check_of (result : Except ExpressionError α) :
    Follows stage codes id (Lowering.check result) (Script.check result) := by
  intro state _ _
  cases result <;> rfl

/-- A check comes before what follows it on both sides. -/
theorem check_bind {result : Except ExpressionError α} {next : α → Lowering δ}
    {next' : α → Script γ}
    (hNext : ∀ a, result = .ok a → Follows stage codes render' (next a) (next' a)) :
    Follows stage codes render' (Lowering.check result >>= next) (Script.check result >>= next') :=
  (check_of result).bind hNext

theorem trace_of (text : String) :
    Follows stage codes (fun _ : Unit => ()) (Lowering.trace text)
      (Script.recording [.trace text]) := by
  intro state _ _
  rfl

/-- A reference to an attribute records it and is written by its name in the program. -/
theorem attributeRef_of (name : String) :
    Follows stage codes (Phrase.text stage codes) (Lowering.attributeRef name)
      (do Script.recording [.attributeRef name]; return .atom (.attributeRef name)) := by
  intro state hStage _
  subst hStage
  rfl

/-- A reference to a variable records it and is written by its uniform. -/
theorem variableRef_of (name : String) :
    Follows stage codes (Phrase.text stage codes) (Lowering.variableRef name)
      (do
        Script.recording [.variableRef name]
        return .atom (.uniform (Glsl.uniformName name))) := by
  intro state _ _
  rfl

/-- The code written for a string is the one that the final table gives it. -/
theorem literalCode_of (s : String) :
    Follows stage codes (Phrase.text stage codes) (Lowering.literalCode s)
      (do Script.recording [.literalCode s]; return .atom (.code s)) := by
  intro state _ hCodes
  have hCode := LiteralTable.code?_of_isPrefix hCodes (LiteralTable.code?_codeFor state.literals s)
  show EStateM.Result.ok (Glsl.number (LiteralTable.codeNumber (state.literals.codeFor s).1)) _ =
    EStateM.Result.ok (Phrase.text stage codes (.atom (.code s))) _
  rw [Phrase.text, Atom.text, hCode]
  rfl

end Follows

end Lowering

end PointStyle
