import PointStyle.Proofs.Expression.RoundTrip
import PointStyle.Proofs.Lowering.Parts

/-! Where the atoms of a phrase come from. Under whatever names the built-in operators go, a phrase
holds a code, an attribute or a variable only if lowering it has recorded that. So its text depends
on the state through what has been recorded and through nothing else. -/
namespace PointStyle

open Lowering Glsl

/-- Texts of atoms are all that a text depends on. -/
theorem Glsl.Phrase.Fits.text_congr {Good : Atom → Prop} {level : Nat} {phrase : Phrase}
    {stage other : Stage} {codes others : LiteralTable} (h : phrase.Fits Good level)
    (hAtoms : ∀ a, Good a → a.text stage codes = a.text other others) :
    phrase.text stage codes = phrase.text other others := by
  induction h with
  | atom hAtom _ => exact hAtoms _ hAtom
  | negation _ _ ih => simp only [Phrase.text, ih]
  | group _ _ ih => simp only [Phrase.text, ih]
  | binary _ _ _ ihLeft ihRight => simp only [Phrase.text, ihLeft, ihRight]
  | conditional _ _ _ ihTest ihYes ihNo => simp only [Phrase.text, ihTest, ihYes, ihNo]
  | call _ _ _ _ ih => rw [Phrase.text_call, Phrase.text_call, List.map_congr_left ih]

/-- However the node is lowered, its phrase holds nothing but plain atoms and what it records. -/
def Node.IsGrounded (node : Node) : Prop :=
  ∀ hint phrase, (node.script hint).outcome = .ok phrase →
    phrase.Fits (Atom.IsFrom (node.script hint).events) 7

/-- A call adds no atom but plain ones and the input that it records. -/
theorem Plan.script_grounded {b : Builtin} {args : List Node} {hint : Option TypeSet} {plan : Plan}
    (hPlan : b.plan args hint = .ok plan) (hArgs : ∀ arg ∈ args, arg.IsGrounded) {phrase : Phrase}
    (h : plan.script.outcome = .ok phrase) : phrase.Fits (Atom.IsFrom plan.script.events) 7 := by
  obtain ⟨_, _, _, hEvents⟩ := script_outcome_ok h
  obtain ⟨rfl, hOperands⟩ := script_ok h
  apply (Builtin.plan_builds hPlan).fits (fun _ => .inl)
  · intro event hEvent a hAtom
    rw [hEvents]
    exact .inr ⟨event, List.mem_append_left _ hEvent, hAtom⟩
  · exact List.length_map _
  · intro other hOther
    obtain ⟨operand, hOperand, rfl⟩ := List.mem_map.mp hOther
    obtain ⟨hOutcome, hSubset⟩ := hOperands operand hOperand
    have hArg := hArgs _ ((Builtin.plan_accounts hPlan).only operand hOperand)
    exact (hArg _ _ hOutcome).imp fun _ hFrom => hFrom.mono hSubset

namespace Vocabulary

variable (words : Vocabulary)

/-- Whatever the operators are called, no expression is lowered to atoms that it does not record. -/
theorem node_isGrounded (e : Expression) : (words.node e).IsGrounded := by
  induction e with
  | number x =>
      intro hint phrase h
      cases h
      exact .atom (.inl (.number x)) (Nat.le_refl 7)
  | bool b =>
      intro hint phrase h
      cases h
      exact .atom (.inl (.truth b)) (Nat.le_refl 7)
  | string s => exact fun hint phrase h => (stringScript_gives h).fits
  | numberArray xs => exact fun hint phrase h => (arrayPhrase_gives h).fits
  | call name args ih =>
      intro hint phrase h
      obtain ⟨b, plan, text, _, hPlan, hOutcome, hEvents⟩ := words.script_call_ok h
      have hArgs : ∀ arg ∈ words.nodes args, arg.IsGrounded := by
        rw [nodes_eq_map]
        exact List.forall_mem_map.mpr ih
      apply (Plan.script_grounded hPlan hArgs hOutcome).imp
      intro a hFrom
      apply hFrom.mono
      change _ ⊆ (words.script (.call name args) hint).events
      rw [hEvents]
      exact List.subset_cons_self _ _

end Vocabulary

end PointStyle
