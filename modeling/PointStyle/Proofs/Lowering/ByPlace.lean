import PointStyle.Proofs.Lowering.Faults
import PointStyle.Proofs.Operator.ByPlaceAgreement

/-! Expressions by places. Inferring types comes to calls whose arguments nobody has counted yet,
and lowering counts them before it reaches for them. Either way nothing is reached for that is not
there, at no depth and whatever names the operators go by. -/
namespace PointStyle

open Lowering

namespace ByPlace

/-- Lowers a literal array. The numbers of a colour are put into four slots, of which the last is
one unless it is filled. -/
def lowerArray (xs : List Float) (hint : Option TypeSet) : Reach String :=
  if (Expression.arrayTypes xs).meets .colour && Expression.expects hint .colour then do
    let slots ← check (fill [0, 0, 0, 1] xs)
    let red ← check (item slots 0)
    let green ← check (item slots 1)
    let blue ← check (item slots 2)
    let alpha ← check (item slots 3)
    return Glsl.colour red green blue alpha
  else lift (Lowering.check (Glsl.array xs))

/-- An array may be a colour just in case it has three or four numbers. -/
theorem meets_colour_arrayTypes (xs : List Float) :
    (Expression.arrayTypes xs).meets .colour = decide (xs.length = 3 ∨ xs.length = 4) := by
  unfold Expression.arrayTypes
  split
  · rename_i hLength
    rw [decide_eq_true hLength]
    decide
  · rename_i hLength
    rw [decide_eq_false hLength]
    decide

/-- Reaching for the numbers of an array by their places lowers it in the same way. -/
theorem lowerArray_eq (xs : List Float) (hint : Option TypeSet) :
    lowerArray xs hint = lift (Expression.lowerArray xs hint) := by
  rw [lowerArray, meets_colour_arrayTypes]
  fun_cases Expression.lowerArray xs hint with
  | case1 red green blue hExpects =>
      rw [hExpects, if_pos (by simp)]
      rfl
  | case2 red green blue alpha hExpects =>
      rw [hExpects, if_pos (by simp)]
      rfl
  | case3 xs hThree hFour =>
      refine if_neg fun hColour => ?_
      rw [Bool.and_eq_true, decide_eq_true_iff] at hColour
      obtain ⟨hLength, hExpects⟩ := hColour
      rcases xs with _ | ⟨red, _ | ⟨green, _ | ⟨blue, _ | ⟨alpha, _ | ⟨_, _⟩⟩⟩⟩⟩
      · simp at hLength
      · simp at hLength
      · simp at hLength
      · exact hThree red green blue rfl hExpects
      · exact hFour red green blue alpha rfl hExpects
      · simp at hLength

end ByPlace

open ByPlace

namespace Vocabulary

/-- A call of an operator by places, or of a name that has none. -/
def callOperand (words : Vocabulary) (name : String) (source : Expression) (args : List Operand) :
    Operand :=
  match words.word? name with
  | none =>
    { source
      types := .error (.reported (.unknownOperator source))
      lower := fun _ => throw (.reported (.unknownOperator source)) }
  | some b =>
    { source
      types := b.byPlace.returns args
      lower := fun hint => do
        let count := args.length
        lift (Lowering.trace s!"Lowering '{name}' with {count} argument(s)")
        b.byPlace.lower args hint }

mutual

/-- The meaning of an expression, by places at every depth. -/
def operand (words : Vocabulary) : Expression → Operand
  | .number x => ⟨.number x, .ok .number, fun _ => return Glsl.number x⟩
  | .bool b => ⟨.bool b, .ok .boolean, fun _ => return Glsl.bool b⟩
  | .string s =>
    ⟨.string s, .ok (Expression.stringTypes s), fun hint => lift (Expression.lowerString s hint)⟩
  | .numberArray xs => ⟨.numberArray xs, .ok (Expression.arrayTypes xs), ByPlace.lowerArray xs⟩
  | .call name args => words.callOperand name (.call name args) (words.operandAll args)

def operandAll (words : Vocabulary) : List Expression → List Operand
  | [] => []
  | e :: rest => words.operand e :: words.operandAll rest

end

variable (words : Vocabulary)

theorem operandAll_eq_map (args : List Expression) :
    words.operandAll args = args.map words.operand := by
  induction args with
  | nil => rw [operandAll, List.map_nil]
  | cons e rest ih => rw [operandAll, ih, List.map_cons]

/-- A call that reaches for its arguments by places means the same as the call. -/
theorem callOperand_operands (name : String) (source : Expression) (args : List Term) :
    words.callOperand name source (operands args) =
      .ofTerm (words.registry.callTerm name source args) := by
  rw [callOperand, Registry.callTerm, words.find?_eq]
  cases words.word? name with
  | none => rfl
  | some b =>
      simp only [Option.map_some, Operand.ofTerm, (agrees b).returns, (agrees b).lower,
        length_operands, lift_bind]

/-- By places an expression means what it means by patterns. -/
theorem operand_eq (e : Expression) : words.operand e = .ofTerm (words.registry.term e) := by
  induction e with
  | number _ | bool _ | string _ => rfl
  | numberArray xs =>
      rw [operand, Registry.term, Operand.ofTerm]
      simp only [funext (lowerArray_eq xs)]
      rfl
  | call name args ih =>
      have hArgs : words.operandAll args = operands (words.registry.terms args) := by
        rw [operandAll_eq_map, Registry.terms_eq_map, operands, List.map_map]
        exact List.map_congr_left ih
      rw [operand, hArgs, callOperand_operands, Registry.term]

end Vocabulary

/-- Errors of reading a document or a colour, which are no errors of expressions that have been
read. -/
def ExpressionError.isOfReading : ExpressionError → Bool
  | .unhandledValue _ | .expectedOperator _ | .color _ => true
  | _ => false

namespace Vocabulary

/-- No error of an expression is one of reading. -/
theorem not_isOfReading_of_faults {words : Vocabulary} {e : Expression} {error : ExpressionError}
    (h : words.Faults e error) : error.isOfReading = false := by
  induction h with
  | unknown _ | length _ | type _ _ => rfl
  | concern hConcerns => cases hConcerns <;> rfl
  | argument _ _ ih => exact ih

/-- Nothing is reached for that is not there, and no dead end is taken. By places, at whatever depth
and with the built-in operators under whatever names, an expression has the same types, or the same
error, and from any state it is lowered to the same text, or with the same error, and leaves the
same state behind. So neither slips: there is an argument at every place, no length is less than
what is taken from it, the numbers of a colour fit into its slots, and an interpolation that gets to
its stops has a segment. And neither reports an error of reading. -/
theorem never_slips (words : Vocabulary) (e : Expression) (hint : Option TypeSet) (state : State) :
    (words.operand e).types = report (words.registry.infer e) ∧
      (words.operand e).lower hint state = lift (words.registry.lower e hint) state ∧
      (∀ slip, (words.operand e).types ≠ .error (.slipped slip)) ∧
      (∀ slip final, (words.operand e).lower hint state ≠ .error (.slipped slip) final) ∧
      ∀ error, error.isOfReading → words.registry.infer e ≠ .error error ∧
        ∀ final, words.registry.lower e hint state ≠ .error error final := by
  rw [operand_eq]
  refine ⟨rfl, rfl, ?_, ?_, fun error hReading => ⟨fun hTypes => ?_, fun final hLower => ?_⟩⟩
  · exact report_ne_slipped _
  · exact lift_ne_slipped _ state
  · rw [not_isOfReading_of_faults (words.faults_of_infer hTypes)] at hReading
    cases hReading
  · rw [not_isOfReading_of_faults (words.faults_of_lower hLower)] at hReading
    cases hReading

/-- A match that goes by another name. -/
def samplePick : Vocabulary := empty.register "pick" .matching

/-- A call without arguments has types, and nothing is taken from the number of its arguments before
they are counted. -/
theorem never_slips_samplePick :
    (samplePick.operand (.call "pick" [])).types = .ok .any ∧
      ∃ final, (samplePick.operand (.call "pick" [])).lower none (State.fresh .vertex) =
        .error (.reported (.argsMinCount 4 0)) final := by
  obtain ⟨hTypes, hLower, _⟩ := never_slips samplePick (.call "pick" []) none (State.fresh .vertex)
  exact ⟨hTypes.trans rfl, _, hLower.trans rfl⟩

end Vocabulary

end PointStyle
