import Mathlib.Data.List.Nodup
import PointStyle.Shader.Program

/-! The header of a program: the lines before its main function, which declare its inputs. Reading
the names off the text of a program finds those of its parts, as long as no part breaks a line. -/
namespace PointStyle

namespace Shader

/-- What an input of a program holds: a value for the drawing, for the feature, or for the
fragment. -/
inductive InputKind where
  | uniform
  | attribute
  | varying
deriving DecidableEq, Repr

namespace InputKind

def keyword : InputKind → String
  | .uniform => "uniform"
  | .attribute => "attribute"
  | .varying => "varying"

/-- What the names of all inputs of a kind start with. -/
def mark : InputKind → String
  | .uniform => "u_"
  | .attribute => "a_"
  | .varying => "v_"

end InputKind

/-- An input of a program; its name goes without the mark of its kind. -/
structure Input where
  kind : InputKind
  type : String
  name : String
deriving DecidableEq, Repr

namespace Input

def fullName (input : Input) : String := input.kind.mark ++ input.name

/-- The line that declares an input. -/
def line (input : Input) : String :=
  input.kind.keyword ++ " " ++ input.type ++ " " ++ input.fullName ++ ";"

end Input

/-- The keywords that declare inputs. -/
def inputKeywords : List String := [InputKind.uniform, .attribute, .varying].map InputKind.keyword

/-- The name that a line declares as an input, after the keyword and the type. -/
def declaredName? (line : String) : Option String :=
  let keyword := line.toList.takeWhile (· ≠ ' ')
  let rest := (line.toList.dropWhile (· ≠ ' ')).drop 1
  let name := (rest.dropWhile (· ≠ ' ')).drop 1
  if String.ofList keyword ∈ inputKeywords ∧ name.getLast? = some ';' then
    some (String.ofList name.dropLast)
  else none

/-- The names that lines declare. -/
def declaredNames (lines : List String) : List String := lines.filterMap declaredName?

def textLines (text : String) : List String := (text.toList.splitOn '\n').map String.ofList

/-- The lines of a program before its main function. -/
def header (text : String) : List String := (textLines text).takeWhile (· ≠ mainOpen)

namespace Builder

/-- The parts of a program before its main function. -/
def headerLines (b : Builder) : Stage → Bool → List String
  | .vertex, hit =>
    [precision] ++ vertexUniforms ++ b.uniformLines ++ vertexAttributes ++ b.attributeLines ++
      onlyFor hit [hitAttribute] ++ quadVaryings ++ b.varyingLines ++ onlyFor hit [hitVarying] ++
      b.functions
  | .fragment, hit =>
    [precision] ++ viewUniforms ++ b.uniformLines ++ quadVaryings ++ b.varyingLines ++
      onlyFor hit [hitVarying] ++ b.functions

end Builder

section Text

/-- Parts that are joined by line breaks keep their own lines, also those of a part with breaks in
it. -/
theorem textLines_intercalate {parts : List String} (hParts : parts ≠ []) :
    textLines ("\n".intercalate parts) = parts.flatMap textLines := by
  induction parts with
  | nil => exact absurd rfl hParts
  | cons part rest ih =>
      cases rest with
      | nil => simp
      | cons next others =>
          have hJoin : ("\n".intercalate (part :: next :: others)).toList =
              part.toList ++ '\n' :: ("\n".intercalate (next :: others)).toList := by
            simp [String.toList_intercalate]
          rw [List.flatMap_cons, ← ih (List.cons_ne_nil _ _), textLines, hJoin,
            List.splitOn_append_cons_self, List.map_append, textLines, textLines]

/-- A text without a line break is one line. -/
theorem textLines_of_notMem {line : String} (hLine : '\n' ∉ line.toList) :
    textLines line = [line] := by
  rw [textLines, List.splitOn_eq_singleton hLine, List.map_singleton, String.ofList_toList]

theorem flatMap_textLines_of_notMem {lines : List String}
    (hLines : ∀ line ∈ lines, '\n' ∉ line.toList) : lines.flatMap textLines = lines := by
  rw [List.flatMap_congr fun line hLine => textLines_of_notMem (hLines line hLine),
    List.flatMap_singleton']

/-- The header of a program ends before the line that opens its main function. -/
theorem header_intercalate {front : List String} (hFront : ∀ line ∈ front, '\n' ∉ line.toList)
    (hMain : mainOpen ∉ front) (back : List String) :
    header ("\n".intercalate (front ++ mainOpen :: back)) = front := by
  have hInside : ∀ line ∈ front, decide (line ≠ mainOpen) = true := by
    intro line hLine
    exact decide_eq_true fun hEq => hMain (hEq ▸ hLine)
  rw [header, textLines_intercalate (by simp), List.flatMap_append,
    flatMap_textLines_of_notMem hFront, List.flatMap_cons, textLines_of_notMem (by decide),
    List.singleton_append, List.takeWhile_append_of_pos hInside,
    List.takeWhile_cons_of_neg (by simp), List.append_nil]

/-- The text of a program begins with its declarations. -/
theorem header_program {b : Builder} {stage : Stage} {hit : Bool}
    (hBreaks : ∀ line ∈ b.headerLines stage hit, '\n' ∉ line.toList)
    (hMain : mainOpen ∉ b.headerLines stage hit) :
    header (b.program stage hit) = b.headerLines stage hit := by
  have hProgram : ∃ body, b.program stage hit =
      "\n".intercalate (b.headerLines stage hit ++ mainOpen :: body) := by
    unfold Builder.program Builder.vertexLines Builder.fragmentLines Builder.headerLines
    cases stage with
    | vertex =>
        simp only [List.append_assoc, List.cons_append]
        exact ⟨_, rfl⟩
    | fragment =>
        simp only [List.append_assoc, List.cons_append]
        exact ⟨_, rfl⟩
  obtain ⟨body, hText⟩ := hProgram
  rw [hText, header_intercalate hBreaks hMain]

end Text

theorem takeWhile_word {word : List Char} (hWord : ' ' ∉ word) (rest : List Char) :
    (word ++ ' ' :: rest).takeWhile (· ≠ ' ') = word ∧
      ((word ++ ' ' :: rest).dropWhile (· ≠ ' ')).drop 1 = rest := by
  have hInside : ∀ c ∈ word, decide (c ≠ ' ') = true := by
    intro c hc
    exact decide_eq_true fun hEq => hWord (hEq ▸ hc)
  rw [List.takeWhile_append_of_pos hInside, List.dropWhile_append_of_pos hInside]
  simp

/-- The name that a declaration declares can be read off its line. -/
theorem declaredName?_line {input : Input} (hType : ' ' ∉ input.type.toList) :
    declaredName? input.line = some input.fullName := by
  have hKeyword : input.kind.keyword ∈ inputKeywords ∧ ' ' ∉ input.kind.keyword.toList := by
    cases input.kind <;> decide
  have hLine : input.line.toList = input.kind.keyword.toList ++
      ' ' :: (input.type.toList ++ ' ' :: (input.fullName.toList ++ [';'])) := by
    simp [Input.line]
  simp only [declaredName?, hLine, takeWhile_word hKeyword.2, takeWhile_word hType]
  simp [hKeyword.1]

/-- The names of inputs of different kinds differ in their first letter. -/
theorem fullName_inj {input other : Input} :
    input.fullName = other.fullName ↔ input.kind = other.kind ∧ input.name = other.name := by
  refine ⟨fun h => ?_, fun h => by rw [Input.fullName, h.1, h.2, Input.fullName]⟩
  have hList := congrArg String.toList h
  simp only [Input.fullName, String.toList_append] at hList
  have hKind : input.kind = other.kind := by
    have hFirst := congrArg List.head? hList
    revert hFirst
    cases input.kind <;> cases other.kind <;> simp [InputKind.mark]
  rw [hKind] at hList
  exact ⟨hKind, String.toList_injective (List.append_cancel_left hList)⟩

/-- Inputs of one kind have distinct names just in case their names without the mark are
distinct. -/
theorem nodup_fullNames_of_kind {inputs : List Input} {kind : InputKind}
    (hKind : ∀ input ∈ inputs, input.kind = kind) :
    (inputs.map Input.fullName).Nodup ↔ (inputs.map Input.name).Nodup := by
  unfold List.Nodup
  rw [List.pairwise_map, List.pairwise_map]
  refine List.Pairwise.iff_of_mem fun hInput hOther => ?_
  simp [fullName_inj, hKind _ hInput, hKind _ hOther]

/-- Inputs of different kinds never have the same name. -/
theorem nodup_fullNames_append {first second : List Input}
    (hKinds : ∀ input ∈ first, ∀ other ∈ second, input.kind ≠ other.kind) :
    ((first ++ second).map Input.fullName).Nodup ↔
      (first.map Input.fullName).Nodup ∧ (second.map Input.fullName).Nodup := by
  rw [List.map_append, List.nodup_append]
  refine ⟨fun h => ⟨h.1, h.2.1⟩, fun h => ⟨h.1, h.2, ?_⟩⟩
  simp only [List.mem_map]
  rintro _ ⟨input, hInput, rfl⟩ _ ⟨other, hOther, rfl⟩ hEq
  exact hKinds input hInput other hOther (fullName_inj.mp hEq).1

section Inputs

variable {b : Builder} {stage : Stage} {hit : Bool} {inputs : List Input}

/-- A header that consists of declarations declares just their inputs. -/
theorem declaredNames_headerLines
    (hHeader : b.headerLines stage hit = precision :: inputs.map Input.line)
    (hTypes : ∀ input ∈ inputs, ' ' ∉ input.type.toList) :
    declaredNames (b.headerLines stage hit) = inputs.map Input.fullName := by
  have hPrecision : declaredName? precision = none := by decide
  rw [hHeader, declaredNames, List.filterMap_cons_none hPrecision, List.filterMap_map,
    ← List.filterMap_eq_map]
  refine List.filterMap_congr fun input hInput => ?_
  rw [Function.comp_apply, declaredName?_line (hTypes input hInput), Function.comp_apply]

/-- The declarations can be read off the text, unless the name of an input breaks its line. -/
theorem header_program_of_inputs
    (hHeader : b.headerLines stage hit = precision :: inputs.map Input.line)
    (hTypes : ∀ input ∈ inputs, ' ' ∉ input.type.toList ∧ '\n' ∉ input.type.toList)
    (hNames : ∀ input ∈ inputs, '\n' ∉ input.name.toList) :
    header (b.program stage hit) = b.headerLines stage hit := by
  refine header_program ?_ ?_
  · rw [hHeader]
    intro line hLine
    rcases List.mem_cons.mp hLine with rfl | hLine
    · decide
    · obtain ⟨input, hInput, rfl⟩ := List.mem_map.mp hLine
      have hKind : '\n' ∉ input.kind.keyword.toList ∧ '\n' ∉ input.kind.mark.toList := by
        cases input.kind <;> decide
      simp [Input.line, Input.fullName, hKind, (hTypes input hInput).2, hNames input hInput]
  · rw [hHeader]
    intro hMain
    rcases List.mem_cons.mp hMain with hPrecision | hMain
    · exact absurd hPrecision (by decide)
    · obtain ⟨input, hInput, hLine⟩ := List.mem_map.mp hMain
      have hDeclared := declaredName?_line (hTypes input hInput).1
      rw [hLine] at hDeclared
      exact absurd hDeclared (by simp [show declaredName? mainOpen = none by decide])

end Inputs

end Shader

end PointStyle
