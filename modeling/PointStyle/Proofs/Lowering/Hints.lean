import PointStyle.Proofs.Lowering.Structure

/-! What becomes of hints. The types asked of an expression are compared with its own types only
where there is something to choose: in a string, which may be a code or a colour, and in a call that
picks one of several outputs. Every other expression ends in the same way under every hint. -/
namespace PointStyle

open Lowering Glsl

namespace TypeSet

/-- A set of exactly one type is not empty. -/
theorem meets_of_isUnique {types others : TypeSet} (h : (types &&& others).isUnique) :
    types.meets others := by
  rw [meets]
  cases hEmpty : (types &&& others).isEmpty with
  | false => rfl
  | true =>
      have hNone : types &&& others = .none := congrArg mk (beq_iff_eq.mp hEmpty)
      rw [hNone] at h
      exact absurd h (by decide)

end TypeSet

namespace Builtin

/-- Whether a call chooses between outputs or blends them. -/
def isConditional : Builtin → Bool
  | .interpolate | .matching | .casewise => true
  | _ => false

/-- Other calls do not look at their hint. -/
theorem plan_eq_of_not_isConditional {b : Builtin} (h : b.isConditional = false) (args : List Node)
    (hint other : Option TypeSet) : b.plan args hint = b.plan args other := by
  cases b with
  | interpolate | matching | casewise => cases h
  | _ => rfl

/-- The types of a call that does not choose can always be inferred. -/
theorem returns_ok_of_not_isConditional {b : Builtin} (h : b.isConditional = false)
    (args : List Term) : ∃ types, b.operator.returns args = .ok types := by
  cases b with
  | interpolate | matching | casewise => cases h
  | _ => exact ⟨_, rfl⟩

end Builtin

/-- A type is settled on only if the hint leaves room for one. -/
theorem Plan.outputTypes_meets {args : List Node} {types : Except ExpressionError TypeSet}
    {hint : Option TypeSet} {output : TypeSet} (h : outputTypes args types hint = .ok output) :
    ∃ own, types = .ok own ∧ own.meets (hint.getD .any) := by
  obtain ⟨own, hOwn, rfl, hOne⟩ := outputTypes_ok h
  exact ⟨own, hOwn, TypeSet.meets_of_isUnique hOne⟩

/-- The outputs of a call that chooses agree with its hint. -/
theorem Builtin.returns_meets_of_isConditional {b : Builtin} (h : b.isConditional)
    {args : List Node} {hint : Option TypeSet} {plan : Plan} (hPlan : b.plan args hint = .ok plan) :
    ∃ types, b.operator.returns (Node.terms args) = .ok types ∧ types.meets (hint.getD .any) := by
  cases b with
  | interpolate =>
      obtain ⟨_, _, _, _, _, _, _, _, _, _, _, _, _, hOutput, _⟩ := Plan.ofInterpolation_ok hPlan
      exact Plan.outputTypes_meets hOutput
  | matching =>
      obtain ⟨_, _, _, _, _, _, _, hOutput, _⟩ := Plan.ofMatch_ok hPlan
      exact Plan.outputTypes_meets hOutput
  | casewise =>
      obtain ⟨_, _, _, _, hOutput, _⟩ := Plan.ofCase_ok hPlan
      exact Plan.outputTypes_meets hOutput
  | _ => cases h

namespace Vocabulary

/-- Whether the hint is looked at when the expression is lowered. -/
def heedsHint (words : Vocabulary) : Expression → Bool
  | .string _ => true
  | .call name _ => (words.word? name).any Builtin.isConditional
  | .number _ | .bool _ | .numberArray _ => false

variable (words : Vocabulary)

/-- The types of a call are those that its operator gives. -/
theorem types_call {name : String} {b : Builtin} (h : words.word? name = some b)
    (args : List Expression) :
    words.registry.infer (.call name args) =
      b.operator.returns (Node.terms (words.nodes args)) := by
  rw [Registry.infer, Registry.term, Registry.callTerm, words.find?_eq, h, terms_nodes]
  rfl

/-- A string is lowered only if the hint leaves room for one of its types. -/
theorem stringTypes_meets {s : String} {hint : Option TypeSet} {phrase : Phrase}
    (h : (stringScript s hint).outcome = .ok phrase) :
    (Expression.stringTypes s).meets (hint.getD .any) := by
  have hExpects : ∀ types, Expression.expects hint types → (Expression.stringTypes s).meets types →
      (Expression.stringTypes s).meets (hint.getD .any) := by
    intro types hExpected hMeets
    cases hint with
    | none => unfold Expression.stringTypes; split <;> decide
    | some hinted => rwa [Option.getD_some, beq_iff_eq.mp hExpected]
  unfold stringScript at h
  split at h
  · rename_i hString
    refine hExpects _ hString ?_
    unfold Expression.stringTypes
    split <;> decide
  · split at h
    · rename_i hColour
      rw [Bool.and_eq_true] at hColour
      exact hExpects _ hColour.2 hColour.1
    · cases h

/-- An expression that can be lowered has types, which meet the hint if it is looked at. -/
theorem infer_of_script_ok {e : Expression} {hint : Option TypeSet} {phrase : Phrase}
    (h : (words.script e hint).outcome = .ok phrase) :
    ∃ types, words.registry.infer e = .ok types ∧
      (words.heedsHint e → types.meets (hint.getD .any)) := by
  cases e with
  | number _ => exact ⟨_, rfl, nofun⟩
  | bool _ => exact ⟨_, rfl, nofun⟩
  | string _ => exact ⟨_, rfl, fun _ => stringTypes_meets h⟩
  | numberArray _ => exact ⟨_, rfl, nofun⟩
  | call name args =>
      obtain ⟨b, plan, _, hWord, hPlan, _⟩ := words.script_call_ok h
      rw [words.types_call hWord, heedsHint, hWord, Option.any_some]
      cases hConditional : b.isConditional with
      | true =>
          obtain ⟨types, hTypes, hMeets⟩ :=
            Builtin.returns_meets_of_isConditional hConditional hPlan
          exact ⟨types, hTypes, fun _ => hMeets⟩
      | false =>
          obtain ⟨types, hTypes⟩ :=
            Builtin.returns_ok_of_not_isConditional hConditional (Node.terms (words.nodes args))
          exact ⟨types, hTypes, nofun⟩

/-- A literal array is a colour or a vector, but it fails for its length only. -/
theorem fault?_arrayPhrase (xs : List Float) (hint : Option TypeSet) :
    fault? (arrayPhrase xs hint) =
      if 2 ≤ xs.length ∧ xs.length ≤ 4 then none else some (.arrayLength xs.length) := by
  fun_cases arrayPhrase xs hint with
  | case1 => simp [fault?]
  | case2 => simp [fault?]
  | case3 xs hLength => rw [if_pos hLength, fault?]
  | case4 xs hLength => rw [if_neg hLength, fault?]

/-- Where the hint is not looked at, lowering ends in the same way under every hint. -/
theorem fault?_script_of_not_heedsHint {e : Expression} (h : words.heedsHint e = false)
    (hint other : Option TypeSet) :
    fault? (words.script e hint).outcome = fault? (words.script e other).outcome := by
  cases e with
  | number _ => rfl
  | bool _ => rfl
  | string _ => cases h
  | numberArray xs =>
      show fault? (arrayPhrase xs hint) = fault? (arrayPhrase xs other)
      rw [fault?_arrayPhrase, fault?_arrayPhrase]
  | call name args =>
      simp only [script]
      cases hWord : words.word? name with
      | none => rfl
      | some b =>
          rw [heedsHint, hWord, Option.any_some] at h
          simp only [b.plan_eq_of_not_isConditional h _ hint other]

end Vocabulary

end PointStyle
