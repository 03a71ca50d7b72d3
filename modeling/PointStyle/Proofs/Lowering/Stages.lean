import PointStyle.Proofs.Lowering.Origin
import PointStyle.Proofs.Operator.FirstMatch

/-! The two programs side by side. Lowering asks for its program in one place only, where an
attribute gets its name. So from states that have recorded the same, one for each program, it goes
through the same records to the same failure, or to texts that differ in the names of attributes
only. -/
namespace PointStyle

open Lowering Glsl

namespace Glsl

/-- A stretch of a text: written out, or the name of an attribute. -/
inductive Piece where
  | fixed (text : String)
  | attributeRef (name : String)
deriving DecidableEq, Repr

namespace Piece

/-- The text of a piece, with a mark before the name of an attribute. -/
def text (mark : String) : Piece → String
  | .fixed text => text
  | .attributeRef name => mark ++ name

def join (mark : String) (pieces : List Piece) : String :=
  String.join (pieces.map (text mark))

@[simp] theorem join_append (mark : String) (first second : List Piece) :
    join mark (first ++ second) = join mark first ++ join mark second := by
  simp [join]

end Piece

/-- The texts are put together from the same pieces, with the mark of either program before the
names of attributes, which are among the given ones. -/
def DifferInNames (names : List String) (vertex fragment : String) : Prop :=
  ∃ pieces : List Piece, (∀ name, .attributeRef name ∈ pieces → name ∈ names) ∧
    vertex = Piece.join "a_" pieces ∧ fragment = Piece.join "v_" pieces

namespace DifferInNames

variable {names : List String} {vertex fragment vertex' fragment' : String}

theorem refl (names : List String) (text : String) : DifferInNames names text text :=
  ⟨[.fixed text], by simp, by simp [Piece.join, Piece.text], by simp [Piece.join, Piece.text]⟩

/-- The name of an attribute differs between the programs in its mark only. -/
theorem attributeName {name : String} (h : name ∈ names) :
    DifferInNames names (Glsl.attributeName .vertex name) (Glsl.attributeName .fragment name) := by
  refine ⟨[.attributeRef name], ?_, ?_, ?_⟩
  · intro other hOther
    cases List.mem_singleton.mp hOther
    exact h
  · simp [Piece.join, Piece.text, Glsl.attributeName]
  · simp [Piece.join, Piece.text, Glsl.attributeName]

/-- Texts that are joined differ in the names in which their parts differ. -/
theorem append (h : DifferInNames names vertex fragment)
    (h' : DifferInNames names vertex' fragment') :
    DifferInNames names (vertex ++ vertex') (fragment ++ fragment') := by
  obtain ⟨first, hFirst, rfl, rfl⟩ := h
  obtain ⟨second, hSecond, rfl, rfl⟩ := h'
  refine ⟨first ++ second, fun name hName => ?_, ?_, ?_⟩
  · exact (List.mem_append.mp hName).elim (hFirst name) (hSecond name)
  · rw [Piece.join_append]
  · rw [Piece.join_append]

/-- Texts that are joined by a separator differ in the names in which their parts differ. -/
theorem intercalate (separator : String) {α : Type} {vertexText fragmentText : α → String}
    {items : List α}
    (h : ∀ item ∈ items, DifferInNames names (vertexText item) (fragmentText item)) :
    DifferInNames names (separator.intercalate (items.map vertexText))
      (separator.intercalate (items.map fragmentText)) := by
  induction items with
  | nil => exact refl names _
  | cons first rest ih =>
      obtain ⟨hFirst, hRest⟩ := List.forall_mem_cons.mp h
      cases rest with
      | nil => simpa using hFirst
      | cons second rest =>
          simp only [List.map_cons, String.intercalate_cons_cons] at ih ⊢
          exact (hFirst.append (refl names separator)).append (ih hRest)

end DifferInNames

/-- What is put together from the same atoms differs as they do. -/
theorem Phrase.Fits.differInNames {Good : Atom → Prop} {level : Nat} {phrase : Phrase}
    {names : List String} {codes : LiteralTable} (h : phrase.Fits Good level)
    (hAtoms : ∀ a, Good a → DifferInNames names (a.text .vertex codes) (a.text .fragment codes)) :
    DifferInNames names (phrase.text .vertex codes) (phrase.text .fragment codes) := by
  induction h with
  | atom hAtom _ => exact hAtoms _ hAtom
  | negation _ _ ih => exact (DifferInNames.refl names "!").append ih
  | group _ _ ih => exact ((DifferInNames.refl names "(").append ih).append (.refl names ")")
  | binary _ _ _ ihLeft ihRight => exact (ihLeft.append (.refl names _)).append ihRight
  | conditional _ _ _ ihTest ihYes ihNo =>
      exact (((ihTest.append (.refl names _)).append ihYes).append (.refl names _)).append ihNo
  | call _ _ _ _ ih =>
      rw [Phrase.text_call, Phrase.text_call, Glsl.call, Glsl.call]
      exact ((DifferInNames.refl names _).append (.intercalate ", " ih)).append (.refl names ")")

end Glsl

namespace Lowering.State

/-- The states list the same names and give the same codes. -/
structure RecordsSame (first second : State) : Prop where
  attributes : first.scope.attributes = second.scope.attributes
  variableNames : first.scope.variableNames = second.scope.variableNames
  literals : first.literals = second.literals

/-- Recording the same events keeps two states alike. -/
theorem RecordsSame.recordAll {first second : State} (h : first.RecordsSame second)
    (events : List Event) : (first.recordAll events).RecordsSame (second.recordAll events) := by
  refine ⟨?_, ?_, ?_⟩
  · rw [attributes_recordAll, attributes_recordAll, h.attributes]
  · rw [variableNames_recordAll, variableNames_recordAll, h.variableNames]
  · apply congrArg LiteralTable.mk
    rw [strings_recordAll, strings_recordAll, h.literals]

end Lowering.State

/-- How the lowerings for the two programs may end: with the same error, or with texts that differ
in the names of recorded attributes; and with the same records in either case. -/
inductive StagesAgree :
    EStateM.Result ExpressionError State String → EStateM.Result ExpressionError State String → Prop
  | ok {vertexText fragmentText : String} {vertex fragment : State} :
      vertex.RecordsSame fragment →
      DifferInNames vertex.scope.attributes vertexText fragmentText →
      StagesAgree (.ok vertexText vertex) (.ok fragmentText fragment)
  | error (error : ExpressionError) {vertex fragment : State} :
      vertex.RecordsSame fragment → StagesAgree (.error error vertex) (.error error fragment)

/-- An atom that stands for something recorded is an attribute with its name, or it is written the
same in both programs. -/
theorem Glsl.Atom.IsFrom.differInNames {events : List Event} {a : Atom} (h : a.IsFrom events)
    {state : State} (hKnows : ∀ event ∈ events, state.Knows event) (codes : LiteralTable) :
    DifferInNames state.scope.attributes (a.text .vertex codes) (a.text .fragment codes) := by
  rcases h with hPlain | ⟨event, hEvent, hAtom⟩
  · cases hPlain <;> exact .refl _ _
  · have hKnown := hKnows event hEvent
    cases event with
    | attributeRef name =>
        cases hAtom
        exact .attributeName hKnown
    | variableRef _ | literalCode _ =>
        cases hAtom
        exact .refl _ _
    | trace _ => cases hAtom

/-- The two programs differ in the names of attributes only. From states with the same records, one
for each program, lowering succeeds for both or fails for both with the same error, the final
records are the same, and the texts are put together from one sequence of pieces. -/
theorem Vocabulary.stages_agree (words : Vocabulary) (e : Expression) (hint : Option TypeSet)
    {vertex fragment : State} (hVertex : vertex.scope.stage = .vertex)
    (hFragment : fragment.scope.stage = .fragment) (hSame : vertex.RecordsSame fragment) :
    StagesAgree (words.registry.lower e hint vertex) (words.registry.lower e hint fragment) := by
  have hFinal := hSame.recordAll (words.script e hint).events
  rw [lower_eq, lower_eq, hVertex, hFragment, ← hFinal.literals, Script.finish, Script.finish]
  cases hOutcome : (words.script e hint).outcome with
  | error error => exact .error error hFinal
  | ok phrase =>
      refine .ok hFinal ((words.node_isGrounded e hint phrase hOutcome).differInNames ?_)
      intro a hFrom
      exact hFrom.differInNames (fun _ hEvent => State.knows_recordAll vertex hEvent) _

theorem Vocabulary.stages_agree_sampleMatch :
    (State.fresh .vertex).RecordsSame (State.fresh .fragment) ∧
      ∃ vertex fragment,
        Registry.builtin.lower .sampleMatch none (State.fresh .vertex) =
          .ok "(a_kind == 1.0 ? 10.0 : (a_kind == 0.0 ? 20.0 : 30.0))" vertex ∧
        Registry.builtin.lower .sampleMatch none (State.fresh .fragment) =
          .ok "(v_kind == 1.0 ? 10.0 : (v_kind == 0.0 ? 20.0 : 30.0))" fragment ∧
        StagesAgree (.ok "(a_kind == 1.0 ? 10.0 : (a_kind == 0.0 ? 20.0 : 30.0))" vertex)
          (.ok "(v_kind == 1.0 ? 10.0 : (v_kind == 0.0 ? 20.0 : 30.0))" fragment) := by
  have hSame : (State.fresh .vertex).RecordsSame (State.fresh .fragment) := ⟨rfl, rfl, rfl⟩
  have hVertex : ∃ text final,
      Registry.builtin.lower .sampleMatch none (State.fresh .vertex) = .ok text final ∧
        text = "(a_kind == 1.0 ? 10.0 : (a_kind == 0.0 ? 20.0 : 30.0))" :=
    ⟨_, _, rfl, by decide +kernel⟩
  have hFragment : ∃ text final,
      Registry.builtin.lower .sampleMatch none (State.fresh .fragment) = .ok text final ∧
        text = "(v_kind == 1.0 ? 10.0 : (v_kind == 0.0 ? 20.0 : 30.0))" :=
    ⟨_, _, rfl, by decide +kernel⟩
  obtain ⟨_, vertex, hVertex, rfl⟩ := hVertex
  obtain ⟨_, fragment, hFragment, rfl⟩ := hFragment
  refine ⟨hSame, vertex, fragment, hVertex, hFragment, ?_⟩
  rw [← hVertex, ← hFragment]
  exact stages_agree standard .sampleMatch none rfl rfl hSame

end PointStyle
