import PointStyle.Proofs.Lowering.Parts

/-! Comparing colours. An equality asks its sides for the types that they share, colour left out, so
that colours are compared by the codes of their texts. When colour is all that they share, nothing
is left to ask for. A side that heeds its hint then fails; the others take no notice and are
compared as vectors. -/
namespace PointStyle

open Lowering Glsl

namespace Expression

def isColourCall : Expression → Bool
  | .call name _ => name = "color"
  | _ => false

/-- Whether the expression may be a colour and is lowered as one whatever it is asked for. -/
def isUnaskedColour : Expression → Bool
  | .call name _ => name = "color" || name = "get" || name = "var"
  | .numberArray xs => xs.length = 3 || xs.length = 4
  | _ => false

/-- Sides of an equality that share no type but colour, and that fail for no hint. -/
def AreColourVectors (left right : Expression) : Prop :=
  left.isColourCall ∧ right.isUnaskedColour ∨ left.isUnaskedColour ∧ right.isColourCall

/-- A call of `color` is a colour that takes no notice of hints. -/
theorem isUnaskedColour_of_isColourCall {e : Expression} (h : e.isColourCall) :
    e.isUnaskedColour := by
  cases e with
  | call name args =>
      have hName : name = "color" := of_decide_eq_true h
      simp [isUnaskedColour, hName]
  | _ => cases h

end Expression

namespace TypeSet

theorem any_and (s : TypeSet) : any &&& s = s := by
  apply ext
  intro t
  rw [mem_and]
  exact and_iff_right (by cases t <;> decide)

theorem not_mem_of_isEmpty {s : TypeSet} (h : s.isEmpty) (t : ValueType) : t ∉ s := by
  have hNone : s = .none := congrArg mk (beq_iff_eq.mp h)
  rw [hNone]
  cases t <;> decide

end TypeSet

/-- The types that two terms share. -/
theorem Term.commonTypes_pair {left right : Term} {shared : TypeSet} :
    commonTypes .any [left, right] = .ok shared ↔
      ∃ own other, left.types = .ok own ∧ right.types = .ok other ∧ shared = own &&& other := by
  simp only [commonTypes]
  cases left.types with
  | error _ => simp [bind, Except.bind]
  | ok own =>
      cases right.types with
      | error _ => simp [bind, Except.bind]
      | ok other => simp [bind, Except.bind, TypeSet.any_and, eq_comm]

/-- An equality of two sides that share types asks both for these types but colour. -/
theorem Plan.ofEquality_of_commonTypes (operator : BinaryOperator) {left right : Node}
    {shared : TypeSet} (hShared : Term.commonTypes .any [left.term, right.term] = .ok shared)
    (hEmpty : shared.isEmpty = false) :
    ofEquality operator [left, right] =
      .ok ⟨[], [left, right].map (·, some (shared &&& ~~~TypeSet.colour)),
        fun operands => .group (.chain operator operands)⟩ := by
  show (Term.commonTypes .any [left.term, right.term] >>= _) = _
  rw [hShared]
  show (if shared.isEmpty then _ else _) = _
  rw [hEmpty]
  rfl

section Success

/-- Operands that can be lowered one by one can be lowered in sequence. -/
theorem Node.exists_visitAll_ok {operands : List (Node × Option TypeSet)}
    (h : ∀ operand ∈ operands, ∃ phrase, (operand.1.script operand.2).outcome = .ok phrase) :
    ∃ phrases, (visitAll operands).outcome = .ok phrases := by
  induction operands with
  | nil => exact ⟨[], rfl⟩
  | cons operand rest ih =>
      obtain ⟨⟨phrase, hPhrase⟩, hRest⟩ := List.forall_mem_cons.mp h
      obtain ⟨phrases, hPhrases⟩ := ih hRest
      refine ⟨phrase :: phrases, ?_⟩
      rw [visitAll, Script.bind_eq_of_ok hPhrase, Script.bind_eq_of_ok hPhrases]
      rfl

namespace Vocabulary

variable (words : Vocabulary)

/-- A call can be lowered if its arguments pass the checks and its operands can be lowered. -/
theorem exists_script_call_ok {name : String} {args : List Expression} {hint : Option TypeSet}
    {b : Builtin} {plan : Plan} (hWord : words.word? name = some b)
    (hPlan : b.plan (words.nodes args) hint = .ok plan)
    (hOperands : ∀ operand ∈ plan.operands,
      ∃ phrase, (operand.1.script operand.2).outcome = .ok phrase) :
    ∃ phrase, (words.script (.call name args) hint).outcome = .ok phrase := by
  obtain ⟨phrases, hPhrases⟩ := Node.exists_visitAll_ok hOperands
  have hScript : plan.script.outcome = .ok (plan.build phrases) := by
    show (Script.recording plan.events >>= fun _ => _).outcome = _
    rw [Script.bind_eq_of_ok rfl, Script.bind_eq_of_ok hPhrases]
    rfl
  refine ⟨plan.build phrases, ?_⟩
  simp only [script, hWord, hPlan]
  exact hScript

/-- Whether an expression can be lowered does not depend on the state. -/
theorem exists_lower_ok_iff (e : Expression) (hint : Option TypeSet) (state : State) :
    (∃ text final, words.registry.lower e hint state = .ok text final) ↔
      ∃ phrase, (words.script e hint).outcome = .ok phrase := by
  constructor
  · rintro ⟨text, final, hLower⟩
    obtain ⟨phrase, hPhrase, _⟩ := words.lower_eq_ok hLower
    exact ⟨phrase, hPhrase⟩
  · rintro ⟨phrase, hPhrase⟩
    rw [lower_eq, Script.finish, hPhrase]
    exact ⟨_, _, rfl⟩

/-- Whether an expression that heeds no hint can be lowered does not depend on the hint. -/
theorem script_ok_iff_of_not_heedsHint {e : Expression} (h : words.heedsHint e = false)
    (hint other : Option TypeSet) :
    (∃ phrase, (words.script e hint).outcome = .ok phrase) ↔
      ∃ phrase, (words.script e other).outcome = .ok phrase := by
  rw [← fault?_eq_none_iff, ← fault?_eq_none_iff, words.fault?_script_of_not_heedsHint h hint other]

end Vocabulary

end Success

namespace Vocabulary

open Expression

/-- An expression that does not heed its hint and may be a colour; unless it is a call of `color` it
may be an array as well. -/
theorem unaskedColour_of_mem {e : Expression} {types : TypeSet}
    (hHeeds : standard.heedsHint e = false) (hTypes : Registry.builtin.infer e = .ok types)
    (hColour : .colour ∈ types) :
    e.isUnaskedColour ∧ (e.isColourCall = false → .numberArray ∈ types) := by
  cases e with
  | number _ =>
      cases hTypes
      exact absurd hColour (by decide)
  | bool _ =>
      cases hTypes
      exact absurd hColour (by decide)
  | string _ => cases hHeeds
  | numberArray xs =>
      cases hTypes
      unfold arrayTypes at hColour ⊢
      split
      · rename_i hLength
        exact ⟨by simpa [isUnaskedColour] using hLength, fun _ => by decide⟩
      · rename_i hLength
        rw [if_neg hLength] at hColour
        exact absurd hColour (by decide)
  | call name args =>
      cases hWord : standard.word? name with
      | none =>
          change standard.registry.infer _ = _ at hTypes
          rw [Registry.infer, Registry.term, Registry.callTerm, standard.find?_eq, hWord] at hTypes
          cases hTypes
      | some b =>
          rw [heedsHint, hWord, Option.any_some] at hHeeds
          have hReturns := (standard.types_call hWord args).symm.trans hTypes
          obtain rfl := name_eq_of_word? hWord
          cases b with
          | get | var =>
              cases hReturns
              exact ⟨rfl, fun _ => by decide⟩
          | colour =>
              refine ⟨rfl, fun hOther => ?_⟩
              cases hOther
          | interpolate | matching | casewise => cases hHeeds
          | _ =>
              cases hReturns
              exact absurd hColour (by decide)

/-- Colours that take no notice of hints heed none. -/
theorem not_heedsHint_of_isUnaskedColour {e : Expression} (h : e.isUnaskedColour) :
    standard.heedsHint e = false := by
  cases e with
  | number _ | bool _ | numberArray _ => rfl
  | string _ => cases h
  | call name args =>
      simp only [isUnaskedColour, Bool.or_eq_true, decide_eq_true_eq] at h
      rcases h with (rfl | rfl) | rfl <;> rfl

/-- Such an expression may be a colour, as far as inference can tell. -/
theorem infer_of_isUnaskedColour {e : Expression} (h : e.isUnaskedColour) :
    ∃ types, Registry.builtin.infer e = .ok types ∧ .colour ∈ types := by
  cases e with
  | number _ | bool _ | string _ => cases h
  | numberArray xs =>
      refine ⟨_, rfl, ?_⟩
      have hLength : xs.length = 3 ∨ xs.length = 4 := by simpa [isUnaskedColour] using h
      rw [arrayTypes, if_pos hLength]
      decide
  | call name args =>
      simp only [isUnaskedColour, Bool.or_eq_true, decide_eq_true_eq] at h
      rcases h with (rfl | rfl) | rfl
      · exact ⟨_, standard.types_call (word?_name .colour) args, by decide⟩
      · exact ⟨_, standard.types_call (word?_name .get) args, by decide⟩
      · exact ⟨_, standard.types_call (word?_name .var) args, by decide⟩

/-- A call of `color` is a colour and nothing else. -/
theorem infer_of_isColourCall {e : Expression} (h : e.isColourCall) :
    Registry.builtin.infer e = .ok .colour := by
  cases e with
  | call name args =>
      obtain rfl : name = "color" := of_decide_eq_true h
      exact standard.types_call (word?_name .colour) args
  | _ => cases h

/-- An equality can be lowered if its sides share a type and each of them can be lowered under what
they share without colour. -/
theorem exists_script_equality_ok_iff {b : Builtin} (hOperator : b = .equal ∨ b = .notEqual)
    (left right : Expression) (hint : Option TypeSet) :
    (∃ phrase, (standard.script (.call b.name [left, right]) hint).outcome = .ok phrase) ↔
      ∃ own other, Registry.builtin.infer left = .ok own ∧
      Registry.builtin.infer right = .ok other ∧
        (own &&& other).isEmpty = false ∧
        ∀ e ∈ [left, right], ∃ phrase,
          (standard.script e (some (own &&& other &&& ~~~TypeSet.colour))).outcome =
            .ok phrase := by
  obtain ⟨operator, hPlan⟩ : ∃ operator, b.plan (standard.nodes [left, right]) hint =
      Plan.ofEquality operator (standard.nodes [left, right]) := by
    rcases hOperator with rfl | rfl
    · exact ⟨.equal, rfl⟩
    · exact ⟨.notEqual, rfl⟩
  constructor
  · rintro ⟨phrase, hPhrase⟩
    obtain ⟨b', plan, _, hWord, hPlanned, hScript, _⟩ := standard.script_call_ok hPhrase
    cases (word?_name b).symm.trans hWord
    obtain ⟨_, _, shared, hArgs, hShared, hEmpty, rfl⟩ :=
      Plan.ofEquality_ok (hPlan.symm.trans hPlanned)
    cases hArgs
    obtain ⟨own, other, hOwn, hOther, rfl⟩ := Term.commonTypes_pair.mp hShared
    refine ⟨own, other, hOwn, hOther, hEmpty, fun e hMem => ?_⟩
    refine ⟨_, ((Plan.script_ok hScript).2 (standard.node e, _) ?_).1⟩
    exact List.mem_map_of_mem (List.mem_map_of_mem hMem)
  · rintro ⟨own, other, hOwn, hOther, hEmpty, hSides⟩
    have hShared := Term.commonTypes_pair.mpr ⟨own, other, hOwn, hOther, rfl⟩
    have hSettled := hPlan.trans (Plan.ofEquality_of_commonTypes operator hShared hEmpty)
    refine standard.exists_script_call_ok (word?_name b) hSettled fun operand hOperand => ?_
    obtain ⟨_, hNode, rfl⟩ := List.mem_map.mp hOperand
    obtain ⟨e, hMem, rfl⟩ := List.mem_map.mp (show _ ∈ [left, right].map standard.node from hNode)
    exact hSides e hMem

/-- With nothing left to ask for, the sides that can be lowered take no notice of the hint; and
unless one of them is a call of `color`, both may be arrays. -/
theorem areColourVectors_of_script_ok {left right : Expression} {own other rest : TypeSet}
    (hOwn : Registry.builtin.infer left = .ok own)
    (hOther : Registry.builtin.infer right = .ok other) (hShared : (own &&& other).isEmpty = false)
    (hRest : rest = own &&& other &&& ~~~TypeSet.colour) (hNothing : rest.isEmpty)
    (hSides : ∀ e ∈ [left, right], ∃ phrase, (standard.script e (some rest)).outcome = .ok phrase) :
    left.AreColourVectors right := by
  have hOnly : ∀ t, t ∈ own → t ∈ other → t = .colour := by
    intro t hLeft hRight
    refine Classical.byContradiction fun hColour => TypeSet.not_mem_of_isEmpty hNothing t ?_
    rw [hRest, TypeSet.mem_and, TypeSet.mem_and, TypeSet.mem_complement, TypeSet.colour,
      TypeSet.mem_single]
    exact ⟨⟨hLeft, hRight⟩, hColour⟩
  obtain ⟨t, hMem⟩ := TypeSet.exists_mem_of_isEmpty_eq_false hShared
  obtain ⟨hLeft, hRight⟩ := (TypeSet.mem_and t own other).mp hMem
  obtain rfl := hOnly t hLeft hRight
  have hHeeds : ∀ e ∈ [left, right], standard.heedsHint e = false := by
    intro e hSide
    refine Bool.eq_false_iff.mpr fun hHeeds => ?_
    obtain ⟨_, hPhrase⟩ := hSides e hSide
    obtain ⟨types, _, hMeets⟩ := standard.infer_of_script_ok hPhrase
    obtain ⟨t, _, hAsked⟩ := TypeSet.exists_mem_of_meets (hMeets hHeeds)
    exact TypeSet.not_mem_of_isEmpty hNothing t hAsked
  obtain ⟨hUnaskedLeft, hArrayLeft⟩ := unaskedColour_of_mem (hHeeds left (by simp)) hOwn hLeft
  obtain ⟨hUnaskedRight, hArrayRight⟩ := unaskedColour_of_mem (hHeeds right (by simp)) hOther hRight
  cases hCallLeft : left.isColourCall with
  | true => exact .inl ⟨hCallLeft, hUnaskedRight⟩
  | false =>
      cases hCallRight : right.isColourCall with
      | true => exact .inr ⟨hUnaskedLeft, hCallRight⟩
      | false => cases hOnly _ (hArrayLeft hCallLeft) (hArrayRight hCallRight)

/-- Colours that are lowered whatever they are asked for share nothing but colour. -/
theorem infer_of_areColourVectors {left right : Expression} (h : left.AreColourVectors right) :
    ∃ own other, Registry.builtin.infer left = .ok own ∧ Registry.builtin.infer right = .ok other ∧
      own &&& other = .colour := by
  have hMeet : ∀ types : TypeSet, .colour ∈ types →
      TypeSet.colour &&& types = .colour ∧ types &&& TypeSet.colour = .colour := by
    intro types hMem
    constructor <;> refine TypeSet.ext fun t => ?_ <;>
      rw [TypeSet.mem_and, TypeSet.colour, TypeSet.mem_single] <;> grind
  rcases h with ⟨hColour, hUnasked⟩ | ⟨hUnasked, hColour⟩
  · obtain ⟨types, hTypes, hMem⟩ := infer_of_isUnaskedColour hUnasked
    exact ⟨_, types, infer_of_isColourCall hColour, hTypes, (hMeet types hMem).1⟩
  · obtain ⟨types, hTypes, hMem⟩ := infer_of_isUnaskedColour hUnasked
    exact ⟨types, _, hTypes, infer_of_isColourCall hColour, (hMeet types hMem).2⟩

theorem not_heedsHint_of_areColourVectors {left right : Expression}
    (h : left.AreColourVectors right) {e : Expression} (hMem : e ∈ [left, right]) :
    standard.heedsHint e = false := by
  refine not_heedsHint_of_isUnaskedColour ?_
  rw [List.mem_pair] at hMem
  rcases h with ⟨hColour, hUnasked⟩ | ⟨hUnasked, hColour⟩ <;> rcases hMem with rfl | rfl
  · exact isUnaskedColour_of_isColourCall hColour
  · exact hUnasked
  · exact hUnasked
  · exact isUnaskedColour_of_isColourCall hColour

end Vocabulary

namespace Registry

open Vocabulary

/-- An equality that can be lowered compares sides that share a type other than colour, with one
exception: a call of `color` is compared with a call of `color`, `get` or `var`, or with a literal
array of three or four numbers. Those share colour alone, and they are compared whenever each of
them can be lowered on its own. -/
theorem equality_shares_type_but_colour_vectors {b : Builtin}
    (hOperator : b = .equal ∨ b = .notEqual) (left right : Expression) (hint : Option TypeSet)
    (state : State) :
    (∀ text final, builtin.lower (.call b.name [left, right]) hint state = .ok text final →
      ∃ own other, builtin.infer left = .ok own ∧ builtin.infer right = .ok other ∧
        ((own &&& other &&& ~~~TypeSet.colour).isEmpty = false ∨ left.AreColourVectors right)) ∧
    (left.AreColourVectors right →
      (∃ own other, builtin.infer left = .ok own ∧ builtin.infer right = .ok other ∧
        own &&& other = .colour) ∧
      ((∃ text final, builtin.lower (.call b.name [left, right]) hint state = .ok text final) ↔
        ∀ e ∈ [left, right], ∃ text final, builtin.lower e none state = .ok text final)) := by
  constructor
  · intro text final hLower
    obtain ⟨own, other, hOwn, hOther, hShared, hSides⟩ :=
      (exists_script_equality_ok_iff hOperator left right hint).mp
        ((standard.exists_lower_ok_iff _ hint state).mp ⟨text, final, hLower⟩)
    refine ⟨own, other, hOwn, hOther, ?_⟩
    cases hNothing : (own &&& other &&& ~~~TypeSet.colour).isEmpty with
    | false => exact .inl rfl
    | true =>
        exact .inr (areColourVectors_of_script_ok hOwn hOther hShared rfl hNothing hSides)
  · intro hVectors
    obtain ⟨own, other, hOwn, hOther, hShared⟩ := infer_of_areColourVectors hVectors
    refine ⟨⟨own, other, hOwn, hOther, hShared⟩, ?_⟩
    have hLowers : ∀ e ∈ [left, right], ∀ asked,
        (∃ text final, builtin.lower e none state = .ok text final) ↔
          ∃ phrase, (standard.script e asked).outcome = .ok phrase := by
      intro e hMem asked
      have hHeeds := not_heedsHint_of_areColourVectors hVectors hMem
      exact (standard.exists_lower_ok_iff e none state).trans
        (standard.script_ok_iff_of_not_heedsHint hHeeds none asked)
    refine (standard.exists_lower_ok_iff _ hint state).trans ?_
    rw [exists_script_equality_ok_iff hOperator]
    constructor
    · rintro ⟨_, _, _, _, _, hSides⟩ e hMem
      exact (hLowers e hMem _).mpr (hSides e hMem)
    · intro hSides
      refine ⟨own, other, hOwn, hOther, by rw [hShared]; rfl, fun e hMem => ?_⟩
      exact (hLowers e hMem _).mp (hSides e hMem)

end Registry

/-- A colour of three numbers. -/
def Expression.sampleColour : Expression :=
  .call "color" [.number 1, .number 2, .number 3]

namespace Registry

theorem equality_shares_type_but_colour_vectors_sampleColour :
    (∃ text final own other,
      builtin.lower (.call "==" [.call "get" [.string "kind"], .string "red"]) none
        (State.fresh .vertex) = .ok text final ∧
      builtin.infer (.call "get" [.string "kind"]) = .ok own ∧
      builtin.infer (.string "red") = .ok other ∧
      (own &&& other &&& ~~~TypeSet.colour).isEmpty = false) ∧
    Expression.sampleColour.AreColourVectors .sampleColour ∧
    ∃ text final, builtin.lower (.call "!=" [.sampleColour, .sampleColour]) none
      (State.fresh .vertex) = .ok text final := by
  constructor
  · have hLower : ∃ text final, builtin.lower
        (.call "==" [.call "get" [.string "kind"], .string "red"]) none (State.fresh .vertex) =
          .ok text final := ⟨_, _, rfl⟩
    obtain ⟨text, final, hLower⟩ := hLower
    obtain ⟨own, other, hOwn, hOther, hShared | hVectors⟩ :=
      (equality_shares_type_but_colour_vectors (b := .equal) (.inl rfl)
        (.call "get" [.string "kind"]) (.string "red") none _).1 text final hLower
    · exact ⟨text, final, own, other, hLower, hOwn, hOther, hShared⟩
    · rcases hVectors with ⟨hColour, _⟩ | ⟨_, hColour⟩ <;> cases hColour
  · have hVectors : Expression.sampleColour.AreColourVectors .sampleColour := .inl ⟨rfl, rfl⟩
    refine ⟨hVectors, ?_⟩
    refine ((equality_shares_type_but_colour_vectors (b := .notEqual) (.inr rfl)
      .sampleColour .sampleColour none _).2 hVectors).2.mpr ?_
    simp only [List.mem_cons, List.not_mem_nil, or_false, forall_eq_or_imp, forall_eq]
    exact ⟨⟨_, _, rfl⟩, ⟨_, _, rfl⟩⟩

/-- Two colours are compared as vectors, though they share no other type. -/
theorem two_colours_compared :
    ∃ text final, builtin.lower (.call "==" [.sampleColour, .sampleColour]) none
        (State.fresh .vertex) = .ok text final ∧
      text = "(vec4(1.0 / 255.0, 2.0 / 255.0, 3.0 / 255.0, 1.0) == " ++
        "vec4(1.0 / 255.0, 2.0 / 255.0, 3.0 / 255.0, 1.0))" ∧
      builtin.infer .sampleColour = .ok .colour ∧
      (TypeSet.colour &&& TypeSet.colour &&& ~~~TypeSet.colour).isEmpty :=
  ⟨_, _, rfl, by decide +kernel, rfl, by decide⟩

end Registry

end PointStyle
