import PointStyle.Proofs.Lowering.ReadBack
import PointStyle.Proofs.Session
import PointStyle.Proofs.Style.Sources

/-! The passages of a style's programs. Compiling lowers one expression after the other in one
session. After each of them, the session refers to just the inputs that the expressions so far name,
and the text of each reads the same under every later literal table. -/
namespace PointStyle

open Lowering Glsl

/-- What goes into a program for one field of a style. -/
structure Passage extends Style.Field where
  text : String

namespace Passage

/-- The phrase of a passage, whose strings the table has seen. -/
structure IsWritten (passage : Passage) (table : LiteralTable) (phrase : Phrase) : Prop where
  tree : phrase.erase = Vocabulary.standard.tree passage.source (some passage.types)
  strings : ∀ s, .code s ∈ phrase.erase.leaves → s ∈ table.strings
  text : ∀ codes : LiteralTable, table.strings <+: codes.strings →
    passage.text = phrase.text passage.stage codes

/-- A passage that is written stays so when more strings have codes. -/
theorem IsWritten.mono {passage : Passage} {table later : LiteralTable} {phrase : Phrase}
    (h : passage.IsWritten table phrase) (hPrefix : table.strings <+: later.strings) :
    passage.IsWritten later phrase :=
  ⟨h.tree, fun s hs => hPrefix.subset (h.strings s hs),
    fun codes hCodes => h.text codes (hPrefix.trans hCodes)⟩

end Passage

/-- The expressions name the input by a call of the operator. -/
def Expression.Names (operator name : String) (sources : List Expression) : Prop :=
  ∃ source ∈ sources, .call operator [.string name] ∈ source.parts

/-- Expressions name what one of them names. -/
theorem Expression.names_append {operator name : String} {sources others : List Expression} :
    Names operator name (sources ++ others) ↔
      Names operator name sources ∨ Names operator name others := by
  simp [Names, or_and_right, exists_or]

/-- The scope refers to just the inputs that the expressions name, and to each once. It has no
helper functions, as no built-in operator needs one. -/
structure Scope.Reflects (scope : Scope) (stage : Stage) (sources : List Expression) : Prop where
  stage_eq : scope.stage = stage
  functions_eq : scope.functions = []
  attributes_nodup : scope.attributes.Nodup
  variableNames_nodup : scope.variableNames.Nodup
  attributes : ∀ name, name ∈ scope.attributes ↔ Expression.Names "get" name sources
  variableNames : ∀ name, name ∈ scope.variableNames ↔ Expression.Names "var" name sources

theorem Scope.reflects_empty (stage : Stage) : (Scope.empty stage).Reflects stage [] := by
  refine ⟨rfl, rfl, List.nodup_nil, List.nodup_nil, fun name => ?_, fun name => ?_⟩
  · exact iff_of_false List.not_mem_nil fun ⟨_, hSource, _⟩ => List.not_mem_nil hSource
  · exact iff_of_false List.not_mem_nil fun ⟨_, hSource, _⟩ => List.not_mem_nil hSource

/-- A scope reflects one more expression after the events of lowering it. -/
theorem Scope.reflects_recordAll {state : State} {stage : Stage} {sources : List Expression}
    {script : Script Phrase} {tree : SyntaxTree Atom} {e : Expression} {phrase : Phrase}
    (h : state.scope.Reflects stage sources) (hGives : Gives script tree e phrase) :
    (state.recordAll script.events).scope.Reflects stage (sources ++ [e]) := by
  refine ⟨?_, ?_, ?_, ?_, fun name => ?_, fun name => ?_⟩
  · rw [State.stage_recordAll, h.stage_eq]
  · rw [State.functions_recordAll, h.functions_eq]
  · rw [State.attributes_recordAll]
    exact nodup_mentionAll _ h.attributes_nodup
  · rw [State.variableNames_recordAll]
    exact nodup_mentionAll _ h.variableNames_nodup
  · rw [State.attributes_recordAll, mem_mentionAll, h.attributes, Event.mem_filterMap_attribute?,
      hGives.records _ _ rfl, Expression.names_append]
    simp [Expression.Names]
  · rw [State.variableNames_recordAll, mem_mentionAll, h.variableNames,
      Event.mem_filterMap_variableName?, hGives.records _ _ rfl, Expression.names_append]
    simp [Expression.Names]

namespace Session

/-- The expressions of the passages of a program. -/
def sources (passages : List Passage) (stage : Stage) : List Expression :=
  (passages.filter (·.stage = stage)).map (·.source)

/-- What a session keeps of the passages that were lowered in it. -/
structure Reflects (session : Session) (passages : List Passage) : Prop where
  scopes : ∀ stage, (session.scope stage).Reflects stage (sources passages stage)
  strings_nodup : session.literals.strings.Nodup
  written : ∀ passage ∈ passages, ∃ phrase, passage.IsWritten session.literals phrase

theorem reflects_fresh : fresh.Reflects [] := by
  refine ⟨fun stage => ?_, List.nodup_nil, nofun⟩
  cases stage <;> exact Scope.reflects_empty _

/-- A record changes nothing that is reflected. -/
theorem Reflects.report {session : Session} {passages : List Passage}
    (h : session.Reflects passages) (record : Log.Record) :
    (session.report record).Reflects passages := by
  refine ⟨fun stage => ?_, h.strings_nodup, h.written⟩
  cases stage with
  | vertex => exact h.scopes .vertex
  | fragment => exact h.scopes .fragment

/-- An expression that is lowered moves its program on. -/
theorem lower_ok {stage : Stage} {e : Expression} {types : TypeSet} {session next : Session}
    {text : String} (h : lower .builtin stage e types session = .ok text next) :
    ∃ state, Registry.builtin.lower e (some types) (session.state stage) = .ok text state ∧
      next = session.update stage state := by
  rw [lower, run_eq] at h
  cases hLower : Registry.builtin.lower e (some types) (session.state stage) with
  | error error state =>
      rw [hLower] at h
      cases h
  | ok text' state =>
      rw [hLower] at h
      cases h
      exact ⟨state, rfl, rfl⟩

/-- Lowering one more expression extends what the session reflects by its passage. -/
theorem Reflects.lower {stage : Stage} {e : Expression} {types : TypeSet} {session next : Session}
    {text : String} {passages : List Passage} (hReflects : session.Reflects passages)
    (h : lower .builtin stage e types session = .ok text next) :
    next.Reflects (passages ++ [⟨⟨stage, e, types⟩, text⟩]) := by
  obtain ⟨state, hLower, rfl⟩ := lower_ok h
  obtain ⟨phrase, hGives, rfl, hText⟩ := Vocabulary.lower_ok hLower
  have hPrefix := State.strings_isPrefix_recordAll (session.state stage)
    (Vocabulary.standard.script e (some types)).events
  refine ⟨fun other => ?_, ?_, fun passage hPassage => ?_⟩
  · rw [sources, List.filter_append, List.map_append]
    by_cases hOther : other = stage
    · subst hOther
      rw [scope_update, List.filter_cons_of_pos (by simp)]
      exact Scope.reflects_recordAll (hReflects.scopes other) hGives
    · rw [scope_update_of_ne _ _ hOther, List.filter_cons_of_neg (by simpa using Ne.symm hOther),
        List.filter_nil, List.map_nil, List.append_nil]
      exact hReflects.scopes other
  · rw [literals_update, State.strings_recordAll]
    exact Scope.nodup_mentionAll _ hReflects.strings_nodup
  · rw [literals_update]
    rcases List.mem_append.mp hPassage with hEarlier | hLast
    · obtain ⟨other, hWritten⟩ := hReflects.written passage hEarlier
      exact ⟨other, hWritten.mono hPrefix⟩
    · rw [List.mem_singleton.mp hLast]
      refine ⟨phrase, hGives.erase, fun s hs => ?_, fun codes hCodes => ?_⟩
      · rw [State.strings_recordAll, Scope.mem_mentionAll, Event.mem_filterMap_literal?]
        exact .inr (hGives.literalCode_mem hs)
      · rw [hText codes hCodes,
          show (session.state stage).scope.stage = stage from (hReflects.scopes stage).stage_eq]

/-- A session reflects one more passage after a field is lowered. -/
theorem Reflects.lowerField {stage : Stage} {field : String} {e : Expression} {types : TypeSet}
    {session next : Session} {text : String} {passages : List Passage}
    (hReflects : session.Reflects passages)
    (h : lowerField .builtin stage field e types session = .ok text next) :
    next.Reflects (passages ++ [⟨⟨stage, e, types⟩, text⟩]) := by
  obtain ⟨_, middle, hLower, h⟩ := ok_of_bind h
  cases h
  exact (hReflects.lower hLower).report _

end Session

namespace Style

/-- The passages of a style, given the texts and that of the size in the mask. -/
def passages (shape : Shape) (style : Style) (texts : Texts) (maskSize : String) : List Passage :=
  List.zipWith Passage.mk style.symbol.fields
    [texts.size, texts.offset, texts.textureCoord, texts.rotation, texts.colour, texts.opacity] ++
  (if shape = .circle ∨ shape = .triangle then
    [⟨⟨.fragment, style.symbol.size.getD (.number 1), .numberArray ||| .number⟩, maskSize⟩]
    else []) ++
  (style.filter.map fun filter => ⟨⟨.fragment, filter, .boolean⟩, texts.filter.getD ""⟩).toList

/-- The passages of the vertex program come from the expressions that the style asks for there. -/
theorem vertexSources_eq (shape : Shape) (style : Style) (texts : Texts) (maskSize : String) :
    Session.sources (style.passages shape texts maskSize) .vertex = style.vertexSources := by
  unfold passages Session.sources vertexSources
  cases style.filter <;> cases shape <;> rfl

/-- The passages of the fragment program come from the expressions that the style asks for there. -/
theorem fragmentSources_eq (shape : Shape) (style : Style) (texts : Texts) (maskSize : String) :
    Session.sources (style.passages shape texts maskSize) .fragment =
      style.fragmentSources shape := by
  unfold passages Session.sources fragmentSources
  cases style.filter <;> cases shape <;> rfl

/-- The mask adds a passage for the size if the shape shows it. -/
theorem reflects_lowerMask {shape : Shape} {size : Expression} {session next : Session}
    {mask : String} {passages : List Passage} (hReflects : session.Reflects passages)
    (h : lowerMask .builtin shape size session = .ok mask next) :
    ∃ text, mask = shape.opacityMask
        (if shape.needsVisibleSize then "vec2(" ++ text ++ ").x" else "") ∧
      next.Reflects (passages ++
        if shape = .circle ∨ shape = .triangle then [⟨⟨.fragment, size, sizeTypes⟩, text⟩]
        else []) := by
  simp only [← Shape.needsVisibleSize_iff]
  unfold lowerMask at h
  cases hShape : shape.needsVisibleSize with
  | true =>
      rw [if_pos hShape] at h
      obtain ⟨text, middle, hLower, h⟩ := ok_of_bind h
      cases h
      exact ⟨text, rfl, hReflects.lower hLower⟩
  | false =>
      rw [if_neg (by rw [hShape]; exact Bool.false_ne_true)] at h
      cases h
      refine ⟨"", rfl, ?_⟩
      rw [if_neg Bool.false_ne_true, List.append_nil]
      exact hReflects

/-- The filter adds a passage if there is one. -/
theorem reflects_lowerFilter {style : Style} {session next : Session} {filter : Option String}
    {passages : List Passage} (hReflects : session.Reflects passages)
    (h : style.lowerFilter .builtin session = .ok filter next) :
    next.Reflects (passages ++
      (style.filter.map fun e => ⟨⟨.fragment, e, .boolean⟩, filter.getD ""⟩).toList) := by
  unfold lowerFilter at h
  cases hFilter : style.filter with
  | none =>
      rw [hFilter] at h
      cases h
      rw [Option.map_none, Option.toList_none, List.append_nil]
      exact hReflects
  | some e =>
      rw [hFilter] at h
      change (Session.lowerField .builtin .fragment "filter" e .boolean >>=
        fun text => pure (some text)) session = _ at h
      obtain ⟨text, middle, hLower, h⟩ := ok_of_bind h
      cases h
      exact hReflects.lowerField hLower

/-- After all expressions of a style have been lowered, the session reflects its passages. -/
theorem reflects_lowerTexts {shape : Shape} {style : Style} {session final : Session}
    {texts : Texts} (hReflects : session.Reflects [])
    (h : style.lowerTexts .builtin shape session = .ok texts final) :
    ∃ maskSize, texts.mask = shape.opacityMask
        (if shape.needsVisibleSize then "vec2(" ++ maskSize ++ ").x" else "") ∧
      final.Reflects (style.passages shape texts maskSize) := by
  obtain ⟨size, session, hSize, h⟩ := ok_of_bind h
  obtain ⟨offset, session, hOffset, h⟩ := ok_of_bind h
  obtain ⟨textureCoord, session, hTextureCoord, h⟩ := ok_of_bind h
  obtain ⟨rotation, session, hRotation, h⟩ := ok_of_bind h
  obtain ⟨colour, session, hColour, h⟩ := ok_of_bind h
  obtain ⟨opacity, session, hOpacity, h⟩ := ok_of_bind h
  obtain ⟨mask, session, hMask, h⟩ := ok_of_bind h
  obtain ⟨filter, session, hFilter, h⟩ := ok_of_bind h
  cases h
  have hVertex :=
    (((hReflects.lowerField hSize).lowerField hOffset).lowerField hTextureCoord).lowerField
      hRotation
  have hFields := (hVertex.lowerField hColour).lowerField hOpacity
  obtain ⟨maskSize, hMaskText, hFields⟩ := reflects_lowerMask hFields hMask
  exact ⟨maskSize, hMaskText, reflects_lowerFilter hFields hFilter⟩

end Style

end PointStyle
