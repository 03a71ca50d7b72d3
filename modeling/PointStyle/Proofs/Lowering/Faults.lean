import PointStyle.Proofs.Expression.RoundTrip
import PointStyle.Proofs.Lowering.Hints

/-! Where errors come from. A call complains about its own arguments, in terms of these arguments,
or it passes on what inferring or lowering one of them has led to. So every error of an expression
is at home in one of its parts. -/
namespace PointStyle

open Lowering Glsl

/-- The errors that a call may report about its arguments. -/
inductive ExpressionError.Concerns (args : List Expression) : ExpressionError → Prop where
  | argsCount (expected : Nat) : Concerns args (.argsCount expected args.length)
  | argsMinCount (expected : Nat) : Concerns args (.argsMinCount expected args.length)
  | argsMaxCount (expected : Nat) : Concerns args (.argsMaxCount expected args.length)
  | argsEven : Concerns args (.argsEven args.length)
  | argsOdd : Concerns args (.argsOdd args.length)
  | expectedNumber {arg : Expression} : arg ∈ args → Concerns args (.expectedNumber arg)
  | expectedBoolean {arg : Expression} : arg ∈ args → Concerns args (.expectedBoolean arg)
  | expectedIdentifier {arg : Expression} : arg ∈ args → Concerns args (.expectedIdentifier arg)
  | ambiguousType : Concerns args (.ambiguousType args)
  | incompatibleTypes : Concerns args (.incompatibleTypes args)
  | invalidInterpolation {kind : Expression} :
      kind ∈ args → Concerns args (.invalidInterpolation kind)

namespace Term

/-- The errors that a result may end with. -/
def FailsOnly {α : Type} (Allowed : ExpressionError → Prop) (result : Except ExpressionError α) :
    Prop :=
  ∀ error, result = .error error → Allowed error

section FailsOnly

variable {α β : Type} {Allowed : ExpressionError → Prop}

theorem failsOnly_ok (a : α) : FailsOnly Allowed (.ok a) := nofun

theorem failsOnly_error {error : ExpressionError} (h : Allowed error) :
    FailsOnly Allowed (.error error : Except ExpressionError α) := by
  intro other hOther
  cases hOther
  exact h

/-- What two computations in sequence may fail with is what either of them may. -/
theorem FailsOnly.bind {first : Except ExpressionError α} {next : α → Except ExpressionError β}
    (hFirst : FailsOnly Allowed first) (hNext : ∀ a, FailsOnly Allowed (next a)) :
    FailsOnly Allowed (first >>= next) := by
  cases hResult : first with
  | error other =>
      intro error hError
      cases hError
      exact hFirst _ hResult
  | ok a => exact hNext a

end FailsOnly

/-- An error of the result is one of inferring an argument, or it is about the arguments. -/
def Blames {α : Type} (args : List Term) (result : Except ExpressionError α) : Prop :=
  FailsOnly (fun error => (∃ arg ∈ args, arg.types = .error error) ∨ error.Concerns (sources args))
    result

section Blames

variable {α β : Type} {args listed : List Term} {arg : Term}

theorem blames_ok (a : α) : Blames args (.ok a) :=
  failsOnly_ok a

/-- An error that concerns the arguments is to be blamed on them. -/
theorem blames_concern {error : ExpressionError} (h : error.Concerns (sources args)) :
    Blames args (.error error : Except ExpressionError α) :=
  failsOnly_error (.inr h)

/-- So is an error of inferring the types of an argument. -/
theorem blames_types (hArg : arg ∈ args) : Blames args arg.types :=
  fun _ hError => .inl ⟨arg, hArg, hError⟩

/-- Checks in sequence blame the arguments if each of them does. -/
theorem Blames.bind {first : Except ExpressionError α} {next : α → Except ExpressionError β}
    (hFirst : Blames args first) (hNext : ∀ a, Blames args (next a)) :
    Blames args (first >>= next) :=
  FailsOnly.bind hFirst hNext

theorem length_sources (args : List Term) : (sources args).length = args.length :=
  List.length_map _

theorem source_mem_sources (hArg : arg ∈ args) : arg.source ∈ sources args :=
  List.mem_map_of_mem hArg

theorem blames_requireCount (count : Nat) : Blames args (requireCount args count) := by
  unfold requireCount
  split
  · exact blames_ok ()
  · exact blames_concern (length_sources args ▸ .argsCount count)

theorem blames_requireAtLeast (count : Nat) : Blames args (requireAtLeast args count) := by
  unfold requireAtLeast
  split
  · exact blames_concern (length_sources args ▸ .argsMinCount count)
  · exact blames_ok ()

theorem blames_requireAtMost (count : Nat) : Blames args (requireAtMost args count) := by
  unfold requireAtMost
  split
  · exact blames_concern (length_sources args ▸ .argsMaxCount count)
  · exact blames_ok ()

theorem blames_requireEven : Blames args (requireEven args) := by
  unfold requireEven
  split
  · exact blames_ok ()
  · exact blames_concern (length_sources args ▸ .argsEven)

theorem blames_requireOdd : Blames args (requireOdd args) := by
  unfold requireOdd
  split
  · exact blames_concern (length_sources args ▸ .argsOdd)
  · exact blames_ok ()

/-- The error of an ambiguous type concerns all arguments. -/
theorem blames_requireUnique (types : TypeSet) : Blames args (requireUnique args types) := by
  unfold requireUnique
  split
  · exact blames_ok ()
  · exact blames_concern .ambiguousType

/-- A check for numbers fails for the first argument that is none, or that has no types. -/
theorem blames_requireNumbers (hListed : listed ⊆ args) : Blames args (requireNumbers listed) := by
  induction listed with
  | nil => exact blames_ok ()
  | cons arg rest ih =>
      obtain ⟨hArg, hRest⟩ := List.cons_subset.mp hListed
      refine ((blames_types hArg).bind fun types => ?_).bind fun _ => ih hRest
      split
      · exact blames_ok ()
      · exact blames_concern (.expectedNumber (source_mem_sources hArg))

theorem blames_requireBoolean (hArg : arg ∈ args) : Blames args arg.requireBoolean := by
  refine (blames_types hArg).bind fun types => ?_
  split
  · exact blames_ok ()
  · exact blames_concern (.expectedBoolean (source_mem_sources hArg))

theorem blames_requireBooleans (hListed : listed ⊆ args) :
    Blames args (requireBooleans listed) := by
  induction listed with
  | nil => exact blames_ok ()
  | cons arg rest ih =>
      obtain ⟨hArg, hRest⟩ := List.cons_subset.mp hListed
      exact (blames_requireBoolean hArg).bind fun _ => ih hRest

/-- The error of an argument that is no name concerns that argument. -/
theorem blames_identifier (hArg : arg ∈ args) : Blames args arg.identifier := by
  unfold identifier
  split
  · exact blames_ok _
  · exact blames_concern (.expectedIdentifier (source_mem_sources hArg))

/-- The error of a kind of interpolation concerns the argument that should name it. -/
theorem blames_exponent (hArg : arg ∈ args) :
    Blames args (Operator.Interpolate.exponent arg) := by
  have hKind := ExpressionError.Concerns.invalidInterpolation (source_mem_sources hArg)
  unfold Operator.Interpolate.exponent
  split
  · exact blames_ok _
  · split
    · exact blames_concern hKind
    · exact blames_ok _
  · exact blames_concern hKind

/-- The error of types that are not shared is that of an argument. -/
theorem blames_commonTypes (hListed : listed ⊆ args) (types : TypeSet) :
    Blames args (commonTypes types listed) := by
  induction listed generalizing types with
  | nil => exact blames_ok types
  | cons arg rest ih =>
      obtain ⟨hArg, hRest⟩ := List.cons_subset.mp hListed
      exact (blames_types hArg).bind fun own => ih hRest _

end Blames

end Term

namespace Operator

/-- The elements at the even places are elements. -/
theorem everyOther_subset {α : Type} (xs : List α) : everyOther xs ⊆ xs := by
  match xs with
  | [] => exact List.nil_subset _
  | [_] => exact List.Subset.refl _
  | a :: b :: rest =>
      refine List.cons_subset.mpr ⟨List.mem_cons_self .., fun c hc => ?_⟩
      exact List.mem_cons_of_mem _ (List.mem_cons_of_mem _ (everyOther_subset rest hc))

/-- Every other argument and the last are arguments. -/
theorem outputs_subset {α : Type} (n : Nat) (xs : List α) :
    everyOther (xs.drop n) ++ xs.getLast?.toList ⊆ xs := by
  refine List.append_subset.mpr ⟨?_, fun last hLast => ?_⟩
  · exact List.Subset.trans (everyOther_subset _) (List.drop_subset n xs)
  · exact List.mem_of_getLast? (Option.mem_toList.mp hLast)

end Operator

/-- The types of a call are those of its operator, or of some of its arguments. -/
theorem Builtin.blames_returns (b : Builtin) (args : List Term) :
    Term.Blames args (b.operator.returns args) := by
  cases b with
  | interpolate =>
      exact Term.blames_commonTypes
        (List.Subset.trans (Operator.everyOther_subset _) (List.drop_subset 3 args)) _
  | matching => exact Term.blames_commonTypes (Operator.outputs_subset 2 args) _
  | casewise => exact Term.blames_commonTypes (Operator.outputs_subset 1 args) _
  | _ => exact Term.blames_ok _

namespace Plan

open Term (blames_ok blames_concern)

variable {args : List Node} {build : List Phrase → Phrase}

theorem length_sources (args : List Node) : (Term.sources (Node.terms args)).length = args.length :=
  (Term.length_sources _).trans (Node.length_terms args)

theorem term_mem_terms {arg : Node} (h : arg ∈ args) : arg.term ∈ Node.terms args :=
  List.mem_map_of_mem h

theorem blames_ofNumbers : Term.Blames (Node.terms args) (ofNumbers args build) :=
  (Term.blames_requireNumbers (List.Subset.refl _)).bind fun _ => blames_ok _

theorem blames_ofCount (count : Nat) : Term.Blames (Node.terms args) (ofCount count args build) :=
  (Term.blames_requireCount count).bind fun _ => blames_ofNumbers

theorem blames_ofRange (least most : Nat) :
    Term.Blames (Node.terms args) (ofRange least most args build) :=
  (Term.blames_requireAtLeast least).bind fun _ =>
    (Term.blames_requireAtMost most).bind fun _ => blames_ofNumbers

theorem blames_ofNumericChain (operator : BinaryOperator) :
    Term.Blames (Node.terms args) (ofNumericChain operator args) :=
  (Term.blames_requireAtLeast 2).bind fun _ => blames_ofNumbers

theorem blames_ofName (event : String → Event) (atom : String → Atom) :
    Term.Blames (Node.terms args) (ofName event atom args) := by
  unfold ofName
  split
  · exact (Term.blames_identifier (List.mem_singleton_self _)).bind fun _ => blames_ok _
  · exact blames_concern (length_sources args ▸ .argsCount 1)

theorem blames_ofView (uniform : String) : Term.Blames (Node.terms args) (ofView uniform args) :=
  (Term.blames_requireCount 0).bind fun _ => blames_ok _

/-- A plan for an equality blames only its arguments, also when they share no type. -/
theorem blames_ofEquality (operator : BinaryOperator) :
    Term.Blames (Node.terms args) (ofEquality operator args) := by
  unfold ofEquality
  split
  · refine (Term.blames_commonTypes (List.Subset.refl _) _).bind fun shared => ?_
    split
    · exact blames_concern .incompatibleTypes
    · exact blames_ok _
  · exact blames_concern (length_sources args ▸ .argsCount 2)

theorem blames_ofNegation : Term.Blames (Node.terms args) (ofNegation args) := by
  unfold ofNegation
  split
  · exact (Term.blames_requireBoolean (List.mem_singleton_self _)).bind fun _ => blames_ok _
  · exact blames_concern (length_sources args ▸ .argsCount 1)

theorem blames_ofBooleanChain (operator : BinaryOperator) :
    Term.Blames (Node.terms args) (ofBooleanChain operator args) :=
  (Term.blames_requireAtLeast 2).bind fun _ =>
    (Term.blames_requireBooleans (List.Subset.refl _)).bind fun _ => blames_ok _

/-- Settling on a type blames only the arguments. -/
theorem blames_outputTypes {types : Except ExpressionError TypeSet}
    (h : Term.Blames (Node.terms args) types) (hint : Option TypeSet) :
    Term.Blames (Node.terms args) (outputTypes args types hint) :=
  h.bind fun _ => (Term.blames_requireUnique _).bind fun _ => blames_ok _

theorem blames_ofInterpolation (hint : Option TypeSet) :
    Term.Blames (Node.terms args) (ofInterpolation args hint) := by
  refine Term.blames_requireEven.bind fun _ => (Term.blames_requireAtLeast 6).bind fun _ => ?_
  split
  · refine (Term.blames_exponent (List.mem_cons_self ..)).bind fun _ => ?_
    refine (blames_outputTypes (Builtin.blames_returns .interpolate _) hint).bind fun _ => ?_
    split
    · exact blames_ok _
    · exact blames_concern (length_sources _ ▸ .argsMinCount 6)
  · exact blames_concern (length_sources _ ▸ .argsMinCount 6)

theorem blames_ofMatch (hint : Option TypeSet) :
    Term.Blames (Node.terms args) (ofMatch args hint) := by
  refine Term.blames_requireEven.bind fun _ => (Term.blames_requireAtLeast 4).bind fun _ => ?_
  refine (blames_outputTypes (Builtin.blames_returns .matching _) hint).bind fun _ => ?_
  split
  · exact blames_ok _
  · exact blames_concern (length_sources _ ▸ .argsMinCount 4)

theorem blames_ofCase (hint : Option TypeSet) :
    Term.Blames (Node.terms args) (ofCase args hint) := by
  refine Term.blames_requireOdd.bind fun _ => (Term.blames_requireAtLeast 3).bind fun _ => ?_
  refine (blames_outputTypes (Builtin.blames_returns .casewise _) hint).bind fun _ => ?_
  split
  · refine (Term.blames_requireBooleans fun condition hCondition => ?_).bind fun _ => blames_ok _
    obtain ⟨pair, hPair, rfl⟩ := List.mem_map.mp hCondition
    exact term_mem_terms (List.dropLast_subset args (Operator.mem_of_mem_pairs hPair).1)
  · exact blames_concern (length_sources args ▸ .argsMinCount 3)

end Plan

/-- A call that is turned down has something to say about its arguments, or about one of them. -/
theorem Builtin.blames_plan (b : Builtin) (args : List Node) (hint : Option TypeSet) :
    Term.Blames (Node.terms args) (b.plan args hint) := by
  cases b with
  | get | var => exact Plan.blames_ofName _ _
  | time | zoom | resolution => exact Plan.blames_ofView _
  | multiply | add => exact Plan.blames_ofNumericChain _
  | divide | subtract | clamp | modulo | power | abs | floor | round | ceil | sin | cos | greater
  | greaterOrEqual | less | lessOrEqual | between => exact Plan.blames_ofCount _
  | atan | array | colour => exact Plan.blames_ofRange _ _
  | equal | notEqual => exact Plan.blames_ofEquality _
  | not => exact Plan.blames_ofNegation
  | all | any => exact Plan.blames_ofBooleanChain _
  | interpolate => exact Plan.blames_ofInterpolation hint
  | matching => exact Plan.blames_ofMatch hint
  | casewise => exact Plan.blames_ofCase hint

/-- Operands fail as one of them does. -/
theorem Node.exists_of_visitAll {operands : List (Node × Option TypeSet)} {error : ExpressionError}
    (h : (visitAll operands).outcome = .error error) :
    ∃ operand ∈ operands, (operand.1.script operand.2).outcome = .error error := by
  induction operands with
  | nil => cases h
  | cons operand rest ih =>
      obtain ⟨node, hint⟩ := operand
      cases hNode : (node.script hint).outcome with
      | error other =>
          rw [visitAll, Script.bind_eq_of_error hNode] at h
          cases h
          exact ⟨(node, hint), List.mem_cons_self .., hNode⟩
      | ok phrase =>
          cases hRest : (visitAll rest).outcome with
          | error other =>
              rw [visitAll, Script.bind_eq_of_ok hNode, Script.bind_eq_of_error hRest] at h
              cases h
              obtain ⟨later, hLater, hError⟩ := ih hRest
              exact ⟨later, List.mem_cons_of_mem _ hLater, hError⟩
          | ok phrases =>
              rw [visitAll, Script.bind_eq_of_ok hNode, Script.bind_eq_of_ok hRest] at h
              cases h

/-- A plan fails only if one of its operands does. -/
theorem Plan.exists_of_script {plan : Plan} {error : ExpressionError}
    (h : plan.script.outcome = .error error) :
    ∃ operand ∈ plan.operands, (operand.1.script operand.2).outcome = .error error := by
  cases hOperands : (Node.visitAll plan.operands).outcome with
  | error other =>
      rw [script, Script.bind_eq_of_ok rfl, Script.bind_eq_of_error hOperands] at h
      cases h
      exact Node.exists_of_visitAll hOperands
  | ok phrases =>
      rw [script, Script.bind_eq_of_ok rfl, Script.bind_eq_of_ok hOperands] at h
      cases h

namespace Vocabulary

/-- Where in an expression an error may be at home. -/
inductive Faults (words : Vocabulary) : Expression → ExpressionError → Prop where
  | unknown {name : String} {args : List Expression} : words.word? name = none →
      Faults words (.call name args) (.unknownOperator (.call name args))
  | concern {name : String} {args : List Expression} {error : ExpressionError} :
      error.Concerns args → Faults words (.call name args) error
  | length (xs : List Float) : Faults words (.numberArray xs) (.arrayLength xs.length)
  | type (s : String) (expected : TypeSet) :
      Faults words (.string s) (.unexpectedType (.string s) expected)
  | argument {name : String} {args : List Expression} {arg : Expression} {error : ExpressionError} :
      arg ∈ args → Faults words arg error → Faults words (.call name args) error

variable (words : Vocabulary) {error : ExpressionError}

/-- A string is lowered as a colour only if it reads as one. -/
theorem faults_of_stringScript {s : String} {hint : Option TypeSet}
    (h : (stringScript s hint).outcome = .error error) : words.Faults (.string s) error := by
  unfold stringScript at h
  split at h
  · cases h
  · split at h
    · rename_i hColour
      have hRead : Colour.isColour s := by
        rw [Bool.and_eq_true] at hColour
        have hMeets := hColour.1
        unfold Expression.stringTypes at hMeets
        split at hMeets
        · assumption
        · exact absurd hMeets (by decide)
      cases hParse : Colour.parse s with
      | error other =>
          rw [Colour.isColour, hParse] at hRead
          cases hRead
      | ok colour =>
          rw [hParse] at h
          cases h
    · cases h
      exact .type s _

/-- An error that is blamed on the arguments of a call is at home in the call or in one of them. -/
theorem faults_of_blames {name : String} {args : List Expression} {α : Type}
    {result : Except ExpressionError α}
    (hInfer : ∀ arg ∈ args, words.registry.infer arg = .error error → words.Faults arg error)
    (hBlames : Term.Blames (words.registry.terms args) result) (h : result = .error error) :
    words.Faults (.call name args) error := by
  rcases hBlames error h with ⟨term, hTerm, hTypes⟩ | hConcerns
  · rw [Registry.terms_eq_map] at hTerm
    obtain ⟨arg, hArg, rfl⟩ := List.mem_map.mp hTerm
    exact .argument hArg (hInfer arg hArg hTypes)
  · rw [← terms_nodes, sources_nodes] at hConcerns
    exact .concern hConcerns

/-- An error of inferring is at home in a part of the expression. -/
theorem faults_of_infer {e : Expression} (h : words.registry.infer e = .error error) :
    words.Faults e error := by
  induction e with
  | number _ | bool _ | string _ | numberArray _ => cases h
  | call name args ih =>
      cases hWord : words.word? name with
      | none =>
          rw [Registry.infer, Registry.term, Registry.callTerm, words.find?_eq, hWord] at h
          cases h
          exact .unknown hWord
      | some b =>
          rw [words.types_call hWord, terms_nodes] at h
          exact words.faults_of_blames ih (b.blames_returns _) h

/-- An error of lowering is at home in a part of the expression. -/
theorem faults_of_script {e : Expression} {hint : Option TypeSet}
    (h : (words.script e hint).outcome = .error error) : words.Faults e error := by
  induction e generalizing hint with
  | number _ | bool _ => cases h
  | string s => exact words.faults_of_stringScript h
  | numberArray xs =>
      have hFault : fault? (arrayPhrase xs hint) = some error := fault?_eq_some_iff.mpr h
      rw [fault?_arrayPhrase] at hFault
      split at hFault <;> cases hFault
      exact .length xs
  | call name args ih =>
      rw [script] at h
      cases hWord : words.word? name with
      | none =>
          rw [hWord] at h
          cases h
          exact .unknown hWord
      | some b =>
          simp only [hWord] at h
          cases hPlan : b.plan (words.nodes args) hint with
          | error other =>
              rw [hPlan] at h
              cases h
              apply words.faults_of_blames (fun arg _ => words.faults_of_infer) _ hPlan
              rw [← terms_nodes]
              exact b.blames_plan _ hint
          | ok plan =>
              rw [hPlan] at h
              obtain ⟨operand, hOperand, hError⟩ := Plan.exists_of_script h
              have hNode := (Builtin.plan_accounts hPlan).only operand hOperand
              rw [nodes_eq_map] at hNode
              obtain ⟨arg, hArg, hEq⟩ := List.mem_map.mp hNode
              rw [← hEq] at hError
              exact .argument hArg (ih arg hArg hError)

/-- An expression that fails to be lowered fails with an error that is at home in it. -/
theorem faults_of_lower {e : Expression} {hint : Option TypeSet} {state final : State}
    (h : words.registry.lower e hint state = .error error final) : words.Faults e error := by
  rw [lower_eq, Script.finish] at h
  cases hOutcome : (words.script e hint).outcome with
  | ok phrase =>
      rw [hOutcome] at h
      cases h
  | error other =>
      rw [hOutcome] at h
      cases h
      exact words.faults_of_script hOutcome

end Vocabulary

end PointStyle
