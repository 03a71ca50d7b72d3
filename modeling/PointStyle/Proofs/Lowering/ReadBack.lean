import PointStyle.Proofs.Lowering.Structure

/-! Lowered text reads back. The tree that GLSL's grammar finds in the text of an expression is the
one that the operator table prescribes for it, so no operand is regrouped by its surroundings. -/
namespace PointStyle

open Lowering Glsl

namespace Glsl

variable {stage : Stage} {codes : LiteralTable}

/-- A word after a start with an underscore is a name, for no truth value has one. -/
theorem isName_append {start name : String} (hStart : isWord start.toList)
    (hUnderscore : '_' ∈ start.toList) (hName : ∀ c ∈ name.toList, isWordChar c) :
    IsName (start ++ name) := by
  have hMem : '_' ∈ (start ++ name).toList := by
    rw [String.toList_append]
    exact List.mem_append_left _ hUnderscore
  refine ⟨?_, fun hEq => ?_, fun hEq => ?_⟩
  · rw [String.toList_append]
    cases hText : start.toList with
    | nil =>
        rw [hText] at hStart
        cases hStart
    | cons c rest =>
        rw [hText] at hStart
        simp only [isWord, List.cons_append, Bool.and_eq_true, List.all_eq_true, List.mem_cons,
          List.mem_append] at *
        exact ⟨hStart.1, fun d hd => by grind⟩
  · rw [hEq] at hMem
    exact absurd hMem (by decide)
  · rw [hEq] at hMem
    exact absurd hMem (by decide)

/-- An atom that is written as a name is read back as that name. -/
theorem Atom.isReadable_name {a : Atom}
    (hTokens : a.tokens stage codes = [.leaf (.name (a.text stage codes))])
    (hName : IsName (a.text stage codes)) : a.IsReadable stage codes :=
  ⟨hTokens ▸ scan_name hName, hName.head_ne⟩

/-- A plain atom can be read back if its number is finite. -/
theorem Atom.IsPlain.isReadable {a : Atom} (hPlain : a.IsPlain)
    (hFinite : ∀ x, a = .number x → (Datum.ofDouble x).isFinite) : a.IsReadable stage codes := by
  have hNumeral : ∀ text ∈ ["0.0", "0.5", "1.0", "255.0"],
      scan text = some (literalTokens text) ∧ text.toList.head? ≠ some '=' := by decide
  have hTruth : ∀ b, scan (Glsl.bool b) = some [.leaf (.truth b)] ∧
      (Glsl.bool b).toList.head? ≠ some '=' := by
    decide
  have hView : ∀ name ∈ ["u_time", "u_zoom", "u_resolution"],
      scan name = some [.leaf (.name name)] ∧ name.toList.head? ≠ some '=' := by decide
  cases hPlain with
  | numeral hText => exact hNumeral _ hText
  | number x => exact scan_number (hFinite x rfl)
  | truth b => exact hTruth b
  | view hName => exact hView _ hName

/-- What is recorded for an input has a name in the program if the input's own name is a word. -/
theorem Atom.isReadable_of_event {a : Atom} {event : Event} (hAtom : a ∈ event.atom?)
    (hName : ∀ name, event = .attributeRef name ∨ event = .variableRef name →
      ∀ c ∈ name.toList, isWordChar c) :
    a.IsReadable stage codes := by
  cases event with
  | attributeRef name =>
      cases hAtom
      have hChars := hName name (.inl rfl)
      cases stage with
      | vertex => exact isReadable_name rfl (isName_append (by decide) (by decide) hChars)
      | fragment => exact isReadable_name rfl (isName_append (by decide) (by decide) hChars)
  | variableRef name =>
      cases hAtom
      exact isReadable_name rfl (isName_append (by decide) (by decide) (hName name (.inr rfl)))
  | literalCode s =>
      cases hAtom
      exact scan_number (LiteralTable.isFinite_codeNumber _)
  | trace text => cases hAtom

end Glsl

/-- A lowering that succeeds writes a phrase that gives the tree of the expression. Later tables
leave its text as it is. -/
theorem Vocabulary.lower_ok {e : Expression} {hint : Option TypeSet} {state final : State}
    {text : String} (h : Registry.builtin.lower e hint state = .ok text final) :
    ∃ phrase, Gives (standard.script e hint) (standard.tree e hint) e phrase ∧
      final = state.recordAll (standard.script e hint).events ∧
      ∀ codes : LiteralTable, final.literals.strings <+: codes.strings →
        text = phrase.text state.scope.stage codes := by
  have hLower : ∀ codes : LiteralTable,
      (state.recordAll (standard.script e hint).events).literals.strings <+: codes.strings →
      Registry.builtin.lower e hint state = (standard.script e hint).finish
        (Phrase.text state.scope.stage codes) (state.recordAll (standard.script e hint).events) :=
    fun codes hCodes => standard.node_faithful _ codes e hint state rfl hCodes
  cases hOutcome : (standard.script e hint).outcome with
  | error error =>
      rw [hLower _ (List.prefix_refl _), Script.finish, hOutcome] at h
      cases h
  | ok phrase =>
      have hGives := node_isSound e hint phrase hOutcome
      rw [show (standard.node e).term.source = e from Registry.source_term _ e] at hGives
      have hFinal : ∀ codes : LiteralTable,
          (state.recordAll (standard.script e hint).events).literals.strings <+: codes.strings →
          text = phrase.text state.scope.stage codes ∧
            final = state.recordAll (standard.script e hint).events := by
        intro codes hCodes
        rw [hLower codes hCodes, Script.finish, hOutcome] at h
        cases h
        exact ⟨rfl, rfl⟩
      obtain ⟨_, rfl⟩ := hFinal _ (List.prefix_refl _)
      exact ⟨phrase, hGives, rfl, fun codes hCodes => (hFinal codes hCodes).1⟩

/-- Lowering preserves structure: the text of an expression, with words for the names of its inputs
and finite numbers, is read in just one way, as the tree that the operator table prescribes for the
expression. -/
theorem Registry.reads_back_lower {e : Expression} {hint : Option TypeSet} {state final : State}
    {text : String}
    (hNames : ∀ name, .call "get" [.string name] ∈ e.parts ∨ .call "var" [.string name] ∈ e.parts →
      ∀ c ∈ name.toList, isWordChar c)
    (hFinite : ∀ x, .number x ∈ (Vocabulary.standard.tree e hint).leaves →
      (Datum.ofDouble x).isFinite)
    (hLower : Registry.builtin.lower e hint state = .ok text final) :
    ∃ tokens, scan text = some tokens ∧
      parse tokens = some ((Vocabulary.standard.tree e hint).bind
        (Atom.tree state.scope.stage final.literals)) ∧
      ∀ tree, Derives 0 tokens tree ↔
        tree = (Vocabulary.standard.tree e hint).bind
          (Atom.tree state.scope.stage final.literals) := by
  obtain ⟨phrase, hGives, _, hText⟩ := Vocabulary.lower_ok hLower
  obtain rfl := hText final.literals (List.prefix_refl _)
  have hFits : phrase.Fits (Atom.IsReadable state.scope.stage final.literals) 7 := by
    refine hGives.fits.and_leaves.imp fun a ⟨hFrom, hLeaf⟩ => ?_
    rw [hGives.erase] at hLeaf
    -- An atom is written the same everywhere, or it is recorded for a part of the expression.
    rcases hFrom with hPlain | ⟨event, hEvent, hAtom⟩
    · exact hPlain.isReadable fun x hx => hFinite x (hx ▸ hLeaf)
    · refine Atom.isReadable_of_event hAtom fun name hName => hNames name ?_
      rcases hName with rfl | rfl
      · exact .inl ((hGives.records _ _ rfl).mp hEvent)
      · exact .inr ((hGives.records _ _ rfl).mp hEvent)
  have hRead := hFits.isRead
  have hDerives := hGives.erase ▸ hRead.derives.of_le (Nat.zero_le 7)
  refine ⟨_, hRead.scans, parse_of_derives hDerives,
    fun tree => ⟨fun hTree => ?_, fun hTree => hTree ▸ hDerives⟩⟩
  exact derives_unique hDerives hTree

/-- A choice between a negative number and a sum. -/
def Expression.sampleChoice : Expression :=
  .call "case" [.call "==" [.call "get" [.string "kind"], .string "a"], .number (-1.5),
    .call "+" [.call "var" [.string "k"], .number 2]]

theorem Registry.reads_back_lower_sampleChoice :
    ∃ final tokens, Registry.builtin.lower .sampleChoice (some .number) (State.fresh .fragment) =
        .ok "((v_kind == 0.0) ? -1.5 : (u_var_k + 2.0))" final ∧
      scan "((v_kind == 0.0) ? -1.5 : (u_var_k + 2.0))" = some tokens ∧
      parse tokens = some ((Vocabulary.standard.tree .sampleChoice (some .number)).bind
        (Atom.tree .fragment final.literals)) ∧
      parse tokens = some (.conditional
        (.binary .equal (.leaf (.name "v_kind")) (.leaf (.numeral "0.0")))
        (.minus (.leaf (.numeral "1.5")))
        (.binary .add (.leaf (.name "u_var_k")) (.leaf (.numeral "2.0")))) := by
  have hLower : ∃ text final,
      Registry.builtin.lower .sampleChoice (some .number) (State.fresh .fragment) =
        .ok text final ∧ text = "((v_kind == 0.0) ? -1.5 : (u_var_k + 2.0))" :=
    ⟨_, _, rfl, by decide +kernel⟩
  obtain ⟨_, final, hLower, rfl⟩ := hLower
  have hLeaves : (Vocabulary.standard.tree .sampleChoice (some .number)).leaves =
      [.attributeRef "kind", .code "a", .number (-1.5), .uniform "u_var_k", .number 2] := rfl
  have hNames : ∀ name, .call "get" [.string name] ∈ Expression.sampleChoice.parts ∨
      .call "var" [.string name] ∈ Expression.sampleChoice.parts →
      ∀ c ∈ name.toList, isWordChar c := by
    intro name hName
    simp [Expression.sampleChoice, Expression.parts, Expression.partsAll] at hName
    rcases hName with rfl | rfl <;> exact List.all_eq_true.mp (by decide)
  have hFinite : ∀ x, .number x ∈ (Vocabulary.standard.tree .sampleChoice (some .number)).leaves →
      (Datum.ofDouble x).isFinite := by
    intro x hx
    simp [hLeaves] at hx
    rcases hx with rfl | rfl <;> decide +kernel
  obtain ⟨tokens, hScan, hParse, _⟩ := Registry.reads_back_lower hNames hFinite hLower
  have hTree : (scan "((v_kind == 0.0) ? -1.5 : (u_var_k + 2.0))").bind parse =
      some (.conditional (.binary .equal (.leaf (.name "v_kind")) (.leaf (.numeral "0.0")))
        (.minus (.leaf (.numeral "1.5")))
        (.binary .add (.leaf (.name "u_var_k")) (.leaf (.numeral "2.0")))) := rfl
  rw [hScan, Option.bind_some] at hTree
  exact ⟨final, tokens, hLower, hScan, hParse, hTree⟩

end PointStyle
