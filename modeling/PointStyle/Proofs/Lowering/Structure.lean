import PointStyle.Proofs.Lowering.Meaning
import PointStyle.Proofs.Operator.Coverage
import PointStyle.Proofs.Operator.Shape

/-! What an expression gives when it is lowered under the built-in operators and nothing fails: a
phrase with all the parentheses it needs, which stands for the tree of the expression, and a record
of just the inputs that the expression names. -/
namespace PointStyle

open Lowering Glsl

namespace Glsl

/-- The atom is plain or stands for something recorded. -/
def Atom.IsFrom (events : List Event) (a : Atom) : Prop :=
  a.IsPlain ∨ ∃ event ∈ events, a ∈ event.atom?

/-- An atom that comes from some events comes from more of them. -/
theorem Atom.IsFrom.mono {events more : List Event} {a : Atom} (h : a.IsFrom events)
    (hSubset : events ⊆ more) : a.IsFrom more :=
  h.imp_right fun ⟨event, hEvent, hAtom⟩ => ⟨event, hSubset hEvent, hAtom⟩

end Glsl

/-- The events that are recorded for calls are those of the calls among the parts. -/
def Records (events : List Event) (parts : List Expression) : Prop :=
  ∀ event : Event, ∀ call ∈ event.call?, (event ∈ events ↔ call ∈ parts)

/-- A script that succeeds gives a phrase of the tree and records the inputs of the source. -/
structure Gives (script : Script Phrase) (tree : SyntaxTree Atom) (source : Expression)
    (phrase : Phrase) : Prop where
  erase : phrase.erase = tree
  fits : phrase.Fits (Atom.IsFrom script.events) 7
  records : Records script.events source.parts

/-- The strings that a phrase has codes of are recorded. -/
theorem Gives.literalCode_mem {script : Script Phrase} {tree : SyntaxTree Atom}
    {source : Expression} {phrase : Phrase} (h : Gives script tree source phrase) {s : String}
    (hs : .code s ∈ phrase.erase.leaves) : .literalCode s ∈ script.events := by
  rcases h.fits.forall_leaves _ hs with hPlain | ⟨event, hEvent, hAtom⟩
  · cases hPlain
  · cases event with
    | literalCode other =>
        cases hAtom
        exact hEvent
    | attributeRef _ | variableRef _ | trace _ => cases hAtom

/-- However the node is lowered, it gives its tree. -/
def Node.IsSound (node : Node) : Prop :=
  ∀ hint phrase, (node.script hint).outcome = .ok phrase →
    Gives (node.script hint) (node.tree hint) node.term.source phrase

namespace Node

/-- Lowering operands gives the trees of all of them and records the inputs of all of them. -/
theorem visitAll_gives {operands : List (Node × Option TypeSet)}
    (hSound : ∀ operand ∈ operands, operand.1.IsSound) {phrases : List Phrase}
    (h : (visitAll operands).outcome = .ok phrases) :
    phrases.map Phrase.erase = operands.map (fun operand => operand.1.tree operand.2) ∧
      (∀ phrase ∈ phrases, phrase.Fits (Atom.IsFrom (visitAll operands).events) 7) ∧
      Records (visitAll operands).events
        (operands.flatMap fun operand => operand.1.term.source.parts) := by
  induction operands generalizing phrases with
  | nil =>
      cases h
      exact ⟨rfl, fun _ hPhrase => absurd hPhrase List.not_mem_nil, fun _ _ _ => by simp [visitAll]⟩
  | cons operand rest ih =>
      obtain ⟨node, hint⟩ := operand
      obtain ⟨hNode, hRest⟩ := List.forall_mem_cons.mp hSound
      obtain ⟨phrase, others, rfl, hPhrase, hOthers, hAll⟩ := visitAll_cons_ok h
      obtain ⟨hErase, hFits, hRecords⟩ := ih hRest hOthers
      have hGives := hNode hint phrase hPhrase
      refine ⟨?_, ?_, ?_⟩
      · rw [List.map_cons, List.map_cons, hErase, hGives.erase]
      · rw [hAll]
        refine List.forall_mem_cons.mpr ⟨?_, fun other hOther => ?_⟩
        · exact hGives.fits.imp fun _ hFrom => hFrom.mono (List.subset_append_left _ _)
        · exact (hFits other hOther).imp fun _ hFrom => hFrom.mono (List.subset_append_right _ _)
      · intro event call hCall
        rw [hAll, List.mem_append, hGives.records event call hCall, hRecords event call hCall,
          List.flatMap_cons, List.mem_append]

end Node

/-- Carrying out a plan gives the tree that it builds. -/
theorem Plan.script_gives {plan : Plan} {tree : SyntaxTree Atom} {name : String}
    {args : List Node} (hBuilds : plan.Builds tree) (hAccounts : plan.Accounts name args)
    (hSound : ∀ arg ∈ args, arg.IsSound) {phrase : Phrase} (h : plan.script.outcome = .ok phrase) :
    Gives plan.script tree (.call name (Term.sources (Node.terms args))) phrase := by
  obtain ⟨phrases, hPhrases, rfl, hAll⟩ := Plan.script_outcome_ok h
  obtain ⟨hErase, hFits, hRecords⟩ := Node.visitAll_gives
    (fun operand hOperand => hSound _ (hAccounts.only operand hOperand)) hPhrases
  have hLength : phrases.length = plan.operands.length := by
    rw [← List.length_map Phrase.erase, hErase, List.length_map]
  refine ⟨hBuilds.erase phrases hErase, ?_, fun event call hCall => ?_⟩
  · rw [hAll]
    refine hBuilds.fits (fun _ => .inl) (fun event hEvent a hAtom => ?_) phrases hLength
      fun other hOther => ?_
    · exact .inr ⟨event, List.mem_append_left _ hEvent, hAtom⟩
    · exact (hFits other hOther).imp fun _ hFrom => hFrom.mono (List.subset_append_right _ _)
  · rw [hAll, List.mem_append, hAccounts.events event call hCall, hRecords event call hCall,
      Expression.parts, List.mem_cons, Expression.mem_partsAll, List.mem_flatMap]
    -- What is not lowered is silent, so the operands name the inputs of all arguments.
    refine or_congr_right ⟨?_, ?_⟩
    · rintro ⟨operand, hOperand, hPart⟩
      have hArg := hAccounts.only operand hOperand
      exact ⟨_, List.mem_map_of_mem (List.mem_map_of_mem hArg), hPart⟩
    · rintro ⟨source, hSource, hPart⟩
      obtain ⟨_, hTerm, rfl⟩ := List.mem_map.mp hSource
      obtain ⟨arg, hArg, rfl⟩ := List.mem_map.mp hTerm
      rcases hAccounts.every arg hArg with ⟨hint, hOperand⟩ | hSilent
      · exact ⟨(arg, hint), hOperand, hPart⟩
      · exact absurd hPart (hSilent event call hCall)

namespace Vocabulary

theorem arguments_nodes (words : Vocabulary) (args : List Expression) :
    Plan.arguments (words.nodes args) = words.arguments args := by
  induction args with
  | nil => rfl
  | cons e rest ih => exact congrArg (_ :: ·) ih

theorem sources_nodes (words : Vocabulary) (args : List Expression) :
    Term.sources (Node.terms (words.nodes args)) = args := by
  rw [terms_nodes, Registry.terms_eq_map, Term.sources, List.map_map]
  exact List.map_id'' (words.registry.source_term) args

/-- A literal records no input. -/
theorem gives_literal {script : Script Phrase} {tree : SyntaxTree Atom} {source : Expression}
    {phrase : Phrase} (hErase : phrase.erase = tree)
    (hFits : phrase.Fits (Atom.IsFrom script.events) 7)
    (hEvents : ∀ event ∈ script.events, event.call? = none) (hParts : source.parts = [source])
    (hSource : ∀ name args, source ≠ .call name args) : Gives script tree source phrase := by
  refine ⟨hErase, hFits, fun event call hCall => iff_of_false (fun hEvent => ?_) fun hPart => ?_⟩
  · rw [hEvents event hEvent] at hCall
    cases hCall
  · rw [hParts, List.mem_singleton] at hPart
    obtain ⟨_, ⟨_, rfl⟩ | ⟨_, rfl⟩⟩ := Event.exists_of_call? hCall
    · exact hSource _ _ hPart.symm
    · exact hSource _ _ hPart.symm

/-- Numbers make a vector. -/
theorem fits_numbers {Good : Atom → Prop} (hPlain : ∀ a : Atom, a.IsPlain → Good a)
    {xs : List Float} (hLeast : 2 ≤ xs.length) (hMost : xs.length ≤ 4) :
    (Phrase.vector (xs.map fun x => .atom (.number x))).Fits Good 7 := by
  refine (Plan.combines_vector hLeast hMost).fits hPlain _ (List.length_map _)
    fun phrase hPhrase => ?_
  obtain ⟨x, _, rfl⟩ := List.mem_map.mp hPhrase
  exact .atom (hPlain _ (.number x)) (Nat.le_refl 7)

/-- A vector of numbers has the tree of that vector. -/
theorem erase_numbers (xs : List Float) :
    (Phrase.vector (xs.map fun x => .atom (.number x))).erase =
      Builtin.vectorTree (xs.map fun x => .leaf (.number x)) := by
  rw [Plan.erase_vector, List.map_map]
  rfl

theorem colourPhrase_eq (red green blue alpha : Float) :
    ∃ xs : List Float, xs.length = 4 ∧
      colourPhrase red green blue alpha = .vector (xs.map fun x => .atom (.number x)) ∧
      colourTree red green blue alpha = Builtin.vectorTree (xs.map fun x => .leaf (.number x)) :=
  let channel := fun x : Float => (Datum.ofDouble x).overNat 255
  ⟨[channel red, channel green, channel blue, alpha], rfl, rfl, rfl⟩

/-- The phrase of a colour may stand anywhere. -/
theorem fits_colour {Good : Atom → Prop} (hPlain : ∀ a : Atom, a.IsPlain → Good a)
    (red green blue alpha : Float) : (colourPhrase red green blue alpha).Fits Good 7 := by
  obtain ⟨xs, hLength, hPhrase, _⟩ := colourPhrase_eq red green blue alpha
  rw [hPhrase]
  exact fits_numbers hPlain (by omega) (by omega)

theorem erase_colour (red green blue alpha : Float) :
    (colourPhrase red green blue alpha).erase = colourTree red green blue alpha := by
  obtain ⟨xs, _, hPhrase, hTree⟩ := colourPhrase_eq red green blue alpha
  rw [hPhrase, hTree, erase_numbers]

/-- A string that can be lowered gives the tree of its code or of its colour. -/
theorem stringScript_gives {s : String} {hint : Option TypeSet} {phrase : Phrase}
    (h : (stringScript s hint).outcome = .ok phrase) :
    Gives (stringScript s hint) (stringTree s hint) (.string s) phrase := by
  unfold stringScript at h ⊢
  unfold stringTree
  by_cases hString : Expression.expects hint .string
  · simp only [hString, if_true] at h ⊢
    cases h
    refine gives_literal rfl (.atom (.inr ⟨.literalCode s, ?_, rfl⟩) (Nat.le_refl 7)) ?_ rfl nofun
    · exact List.mem_singleton_self _
    · intro event hEvent
      rw [List.mem_singleton.mp hEvent]
      rfl
  · simp only [hString, Bool.false_eq_true, if_false] at h ⊢
    split at h
    · rename_i hColour
      rw [if_pos hColour]
      cases hParse : Colour.parse s with
      | error error =>
          rw [hParse] at h
          cases h
      | ok colour =>
          rw [hParse] at h
          cases h
          exact gives_literal (erase_colour ..) (fits_colour (fun _ => .inl) ..)
            (fun _ h => absurd h List.not_mem_nil)
            rfl nofun
    · cases h

/-- An array that can be lowered has its tree and may stand anywhere. -/
theorem arrayPhrase_ok {xs : List Float} {hint : Option TypeSet} {phrase : Phrase}
    (h : arrayPhrase xs hint = .ok phrase) :
    phrase.erase = arrayTree xs hint ∧ phrase.Fits (Atom.IsFrom []) 7 := by
  fun_cases arrayPhrase xs hint with
  | case1 red green blue hColour =>
      simp only [arrayPhrase, hColour] at h
      cases h
      simp only [arrayTree, hColour]
      exact ⟨erase_colour .., fits_colour (fun _ => .inl) ..⟩
  | case2 red green blue alpha hColour =>
      simp only [arrayPhrase, hColour] at h
      cases h
      simp only [arrayTree, hColour]
      exact ⟨erase_colour .., fits_colour (fun _ => .inl) ..⟩
  | case3 xs hLength hThree hFour =>
      rw [arrayPhrase.eq_3 _ _ hThree hFour, if_pos hLength] at h
      cases h
      rw [arrayTree.eq_3 _ _ hThree hFour]
      exact ⟨erase_numbers xs, fits_numbers (fun _ => .inl) hLength.1 hLength.2⟩
  | case4 xs hLength hThree hFour =>
      rw [arrayPhrase.eq_3 _ _ hThree hFour, if_neg hLength] at h
      cases h

/-- An array that can be lowered gives the tree of its numbers. -/
theorem arrayPhrase_gives {xs : List Float} {hint : Option TypeSet} {phrase : Phrase}
    (h : arrayPhrase xs hint = .ok phrase) :
    Gives (Script.check (arrayPhrase xs hint)) (arrayTree xs hint) (.numberArray xs) phrase := by
  obtain ⟨hErase, hFits⟩ := arrayPhrase_ok h
  exact gives_literal hErase hFits (fun _ hEvent => absurd hEvent List.not_mem_nil) rfl nofun

/-- A call leaves a trace and carries out the plan of its operator. -/
theorem script_call (words : Vocabulary) {name : String} {b : Builtin}
    (hWord : words.word? name = some b) (args : List Expression) (hint : Option TypeSet) :
    ∃ text, words.script (.call name args) hint =
      ⟨.trace text :: (Plan.checked (b.plan (words.nodes args) hint)).events,
        (Plan.checked (b.plan (words.nodes args) hint)).outcome⟩ := by
  simp only [script, hWord]
  exact ⟨_, rfl⟩

/-- A call that succeeds has carried out the plan of its operator. -/
theorem script_call_ok (words : Vocabulary) {name : String} {args : List Expression}
    {hint : Option TypeSet} {phrase : Phrase}
    (h : (words.script (.call name args) hint).outcome = .ok phrase) :
    ∃ b plan text, words.word? name = some b ∧ b.plan (words.nodes args) hint = .ok plan ∧
      plan.script.outcome = .ok phrase ∧
      (words.script (.call name args) hint).events = .trace text :: plan.script.events := by
  cases hWord : words.word? name with
  | none =>
      rw [script, hWord] at h
      cases h
  | some b =>
      obtain ⟨text, hScript⟩ := words.script_call hWord args hint
      rw [hScript] at h ⊢
      cases hPlan : b.plan (words.nodes args) hint with
      | error error =>
          rw [hPlan] at h
          cases h
      | ok plan =>
          rw [hPlan] at h
          exact ⟨b, plan, text, rfl, hPlan, h, rfl⟩

/-- A call is sound if its arguments are, whatever its operator is. -/
theorem call_isSound {name : String} {args : List Expression}
    (hArgs : ∀ node ∈ standard.nodes args, node.IsSound) :
    (standard.node (.call name args)).IsSound := by
  intro hint phrase h
  obtain ⟨b, plan, text, hWord, hPlan, hOutcome, hEvents⟩ := standard.script_call_ok h
  have hGives :=
    plan.script_gives (Builtin.plan_builds hPlan) (Builtin.plan_accounts hPlan) hArgs hOutcome
  rw [arguments_nodes, sources_nodes, name_eq_of_word? hWord] at hGives
  refine ⟨?_, ?_, fun event call hCall => ?_⟩
  · rw [hGives.erase]
    show _ = standard.tree (.call name args) hint
    rw [tree, hWord]
  · refine hGives.fits.imp fun _ hFrom => hFrom.mono ?_
    show _ ⊆ (standard.script (.call name args) hint).events
    rw [hEvents]
    exact List.subset_cons_self _ _
  · show event ∈ (standard.script (.call name args) hint).events ↔
      call ∈ (standard.registry.term _).source.parts
    rw [hEvents, List.mem_cons, hGives.records event call hCall, Registry.source_term]
    refine or_iff_right ?_
    rintro rfl
    cases hCall

mutual

/-- Every expression gives its tree. -/
theorem node_isSound : ∀ e, (standard.node e).IsSound
  | .number x => fun _ _ h => by
      cases h
      exact gives_literal rfl (.atom (.inl (.number x)) (Nat.le_refl 7)) nofun rfl nofun
  | .bool b => fun _ _ h => by
      cases h
      exact gives_literal rfl (.atom (.inl (.truth b)) (Nat.le_refl 7)) nofun rfl nofun
  | .string _ => fun _ _ h => stringScript_gives h
  | .numberArray _ => fun _ _ h => arrayPhrase_gives h
  | .call _ args => call_isSound (nodes_areSound args)

/-- The nodes of expressions are sound. -/
theorem nodes_areSound : ∀ args, ∀ node ∈ standard.nodes args, node.IsSound
  | [] => fun _ hNode => absurd hNode List.not_mem_nil
  | e :: rest => fun node hNode => by
      rw [nodes, List.mem_cons] at hNode
      rcases hNode with hHere | hNode
      · exact hHere ▸ node_isSound e
      · exact nodes_areSound rest node hNode

end

end Vocabulary

end PointStyle
