import PointStyle.Proofs.Shader.Header

/-! Programs for hit detection. They are the plain programs with three lines inserted, each at the
end of the stretch of like lines that it belongs to. What stands between those stretches may hold
any number of line breaks: it is the same in both. -/
namespace PointStyle

namespace Shader

/-- The lines that the longer text has beyond those of the shorter, as a comparison line by line
finds them. There is no answer if a line of the shorter text is missing. -/
def addedLines : List String → List String → Option (List String)
  | [], longer => some longer
  | _ :: _, [] => none
  | line :: shorter, next :: longer =>
    if next = line then addedLines shorter longer
    else (addedLines (line :: shorter) longer).map (next :: ·)

section Added

variable (shorter longer : List String)

/-- Lines that both texts begin with are not added. -/
theorem addedLines_append (front : List String) :
    addedLines (front ++ shorter) (front ++ longer) = addedLines shorter longer := by
  induction front with
  | nil => rfl
  | cons line rest ih => rw [List.cons_append, List.cons_append, addedLines, if_pos rfl, ih]

/-- A line that the shorter text does not go on with is added. -/
theorem addedLines_cons {line : String} (hLine : shorter.head? ≠ some line) :
    addedLines shorter (line :: longer) = (addedLines shorter longer).map (line :: ·) := by
  cases shorter with
  | nil => rw [addedLines, addedLines, Option.map_some]
  | cons first rest =>
      have hFirst : line ≠ first := fun hEq => hLine (congrArg some hEq.symm)
      rw [addedLines, if_neg hFirst]

/-- A line that is inserted before a stretch is found. If the stretch begins with copies of the
line, the last of them is taken for the inserted one. -/
theorem addedLines_cons_append {line : String} (hLine : shorter.head? ≠ some line)
    (stretch : List String) :
    addedLines (stretch ++ shorter) (line :: (stretch ++ longer)) =
      (addedLines shorter longer).map (line :: ·) := by
  induction stretch with
  | nil => exact addedLines_cons shorter longer hLine
  | cons first rest ih =>
      by_cases hFirst : line = first
      · rw [List.cons_append, List.cons_append, addedLines, if_pos hFirst, ← hFirst, ih]
      · rw [List.cons_append, List.cons_append, addedLines, if_neg hFirst, ← List.cons_append,
          ← List.cons_append, addedLines_append]

example : addedLines ["int a;", "int a;", "int b;"] ["int a;", "int a;", "int a;", "int b;"] =
    some ["int a;"] := by decide

end Added

/-- The lines of parts that follow one another. -/
def linesOf (parts : List String) : List String := parts.flatMap textLines

theorem linesOf_append (front back : List String) :
    linesOf (front ++ back) = linesOf front ++ linesOf back :=
  List.flatMap_append

/-- The lines for hit detection have no line breaks of their own. -/
theorem linesOf_onlyFor (hit : Bool) {lines : List String}
    (hLines : ∀ line ∈ lines, '\n' ∉ line.toList) :
    linesOf (onlyFor hit lines) = onlyFor hit lines := by
  cases hit with
  | false => rfl
  | true => exact flatMap_textLines_of_notMem hLines

theorem linesOf_mainClose : linesOf [mainClose] = [mainClose] :=
  flatMap_textLines_of_notMem (by decide)

namespace Builder

/-- The parts of the vertex program down to its last attribute. -/
def partsToAttributes (b : Builder) : List String :=
  [precision] ++ vertexUniforms ++ b.uniformLines ++ vertexAttributes ++ b.attributeLines

/-- The parts of the fragment program down to its last uniform. -/
def partsToUniforms (b : Builder) : List String :=
  [precision] ++ viewUniforms ++ b.uniformLines

/-- The parts of either program that declare varyings. -/
def varyingParts (b : Builder) : List String := quadVaryings ++ b.varyingLines

/-- The parts of the vertex program that assign the varyings of the user. -/
def assignmentParts (b : Builder) : List String := b.varyings.map Varying.assignment

variable (b : Builder)

/-- The parts of a vertex program, with what hit detection adds between them. -/
theorem vertexLines_eq : ∃ body, ∀ hit, b.vertexLines hit =
    b.partsToAttributes ++ onlyFor hit [hitAttribute] ++ b.varyingParts ++
      onlyFor hit [hitVarying] ++ body ++ b.assignmentParts ++ onlyFor hit [hitAssignment] ++
      [mainClose] := by
  -- The body is read off the definition: four stretches of the main function follow the functions.
  exact ⟨b.functions ++ (_ ++ (_ ++ (_ ++ _))), fun hit => by
    unfold vertexLines partsToAttributes varyingParts
    simp only [List.append_assoc]
    rfl⟩

/-- The parts of a fragment program, with what hit detection adds between them. -/
theorem fragmentLines_eq : ∃ body, ∀ hit, b.fragmentLines hit =
    b.partsToUniforms ++ b.varyingParts ++ onlyFor hit [hitVarying] ++ body ++
      onlyFor hit hitTail ++ [mainClose] := by
  exact ⟨b.functions ++ _, fun hit => by
    unfold fragmentLines partsToUniforms varyingParts
    simp only [List.append_assoc]
    rfl⟩

/-- The lines of a vertex program: what hit detection adds stands between lines that both programs
have. -/
theorem textLines_vertex : ∃ body, ∀ hit, textLines (b.program .vertex hit) =
    linesOf b.partsToAttributes ++ onlyFor hit [hitAttribute] ++ linesOf b.varyingParts ++
      onlyFor hit [hitVarying] ++ body ++ linesOf b.assignmentParts ++
      onlyFor hit [hitAssignment] ++ [mainClose] := by
  obtain ⟨body, hBody⟩ := b.vertexLines_eq
  refine ⟨linesOf body, fun hit => ?_⟩
  have hLines : textLines (b.program .vertex hit) = linesOf (b.vertexLines hit) :=
    textLines_intercalate (by simp [hBody])
  rw [hLines, hBody]
  simp (disch := decide) only [linesOf_append, linesOf_onlyFor, linesOf_mainClose]

/-- The lines of a fragment program: what hit detection adds stands between lines that both programs
have. -/
theorem textLines_fragment : ∃ body, ∀ hit, textLines (b.program .fragment hit) =
    linesOf b.partsToUniforms ++ linesOf b.varyingParts ++ onlyFor hit [hitVarying] ++ body ++
      onlyFor hit hitTail ++ [mainClose] := by
  obtain ⟨body, hBody⟩ := b.fragmentLines_eq
  refine ⟨linesOf body, fun hit => ?_⟩
  have hLines : textLines (b.program .fragment hit) = linesOf (b.fragmentLines hit) :=
    textLines_intercalate (by simp [hBody])
  rw [hLines, hBody]
  simp (disch := decide) only [linesOf_append, linesOf_onlyFor, linesOf_mainClose]

/-- The varyings begin with one that every program has. -/
theorem head?_linesOf_varyingParts (rest : List String) :
    (linesOf b.varyingParts ++ rest).head? = some "varying vec2 v_texCoord;" := by
  have hQuad : linesOf quadVaryings = quadVaryings := flatMap_textLines_of_notMem (by decide)
  rw [varyingParts, linesOf_append, hQuad]
  rfl

/-- A comparison of the two vertex programs finds the three lines. -/
theorem addedLines_vertex :
    addedLines (textLines (b.program .vertex false)) (textLines (b.program .vertex true)) =
      some [hitAttribute, hitVarying, hitAssignment] := by
  obtain ⟨body, hText⟩ := b.textLines_vertex
  -- The varyings do not begin with the attribute. A function may begin with the varying, but then
  -- the comparison makes up for it at the latest when it comes to the brace.
  have hFirst : (linesOf b.varyingParts ++
      (body ++ linesOf b.assignmentParts ++ [mainClose])).head? ≠ some hitAttribute := by
    rw [head?_linesOf_varyingParts]
    decide
  calc
    _ = addedLines
          (linesOf b.partsToAttributes ++ (linesOf b.varyingParts ++
            (body ++ linesOf b.assignmentParts ++ [mainClose])))
          (linesOf b.partsToAttributes ++ hitAttribute :: (linesOf b.varyingParts ++
            hitVarying :: (body ++ linesOf b.assignmentParts ++ [hitAssignment, mainClose]))) := by
      rw [hText, hText]
      simp [onlyFor]
    _ = some [hitAttribute, hitVarying, hitAssignment] := by
      rw [addedLines_append, addedLines_cons _ _ hFirst, addedLines_append,
        addedLines_cons_append _ _ (by decide)]
      rfl

/-- Hit detection adds its varying and its tail to the fragment program. -/
theorem addedLines_fragment :
    addedLines (textLines (b.program .fragment false)) (textLines (b.program .fragment true)) =
      some (hitVarying :: hitTail) := by
  obtain ⟨body, hText⟩ := b.textLines_fragment
  calc
    _ = addedLines (linesOf b.partsToUniforms ++ linesOf b.varyingParts ++ (body ++ [mainClose]))
          (linesOf b.partsToUniforms ++ linesOf b.varyingParts ++
            hitVarying :: (body ++ (hitTail ++ [mainClose]))) := by
      rw [hText, hText]
      simp [onlyFor]
    _ = some (hitVarying :: hitTail) := by
      rw [addedLines_append, addedLines_cons_append _ _ (by decide)]
      rfl

end Builder

/-- Hit detection inserts three lines into each program and leaves all others as and where they are.
The attribute follows the last one that is declared, the varying the last that is declared, and its
assignment the last of the user's; the tail of the fragment program stands before the closing brace.
A comparison of the texts line by line finds just these. -/
theorem hit_detection_only_inserts_lines (b : Builder) :
    (∃ body,
      textLines (b.program .vertex false) =
        linesOf b.partsToAttributes ++ linesOf b.varyingParts ++ body ++
          linesOf b.assignmentParts ++ ["\x7d"] ∧
      textLines (b.program .vertex true) =
        linesOf b.partsToAttributes ++ ["attribute vec4 a_hitColor;"] ++
          linesOf b.varyingParts ++ ["varying vec4 v_hitColor;"] ++ body ++
          linesOf b.assignmentParts ++ ["  v_hitColor = a_hitColor;"] ++ ["\x7d"]) ∧
    (∃ body,
      textLines (b.program .fragment false) =
        linesOf b.partsToUniforms ++ linesOf b.varyingParts ++ body ++ ["\x7d"] ∧
      textLines (b.program .fragment true) =
        linesOf b.partsToUniforms ++ linesOf b.varyingParts ++
          ["varying vec4 v_hitColor;"] ++ body ++
          ["  if (gl_FragColor.a < 0.1) \x7b discard; \x7d", "  gl_FragColor = v_hitColor;"] ++
          ["\x7d"]) ∧
    addedLines (textLines (b.program .vertex false)) (textLines (b.program .vertex true)) =
      some ["attribute vec4 a_hitColor;", "varying vec4 v_hitColor;",
        "  v_hitColor = a_hitColor;"] ∧
    addedLines (textLines (b.program .fragment false)) (textLines (b.program .fragment true)) =
      some ["varying vec4 v_hitColor;", "  if (gl_FragColor.a < 0.1) \x7b discard; \x7d",
        "  gl_FragColor = v_hitColor;"] := by
  refine ⟨?_, ?_, b.addedLines_vertex, b.addedLines_fragment⟩
  · obtain ⟨body, hText⟩ := b.textLines_vertex
    refine ⟨body, ?_, hText true⟩
    rw [hText false]
    simp [onlyFor, mainClose]
  · obtain ⟨body, hText⟩ := b.textLines_fragment
    refine ⟨body, ?_, hText true⟩
    rw [hText false]
    simp [onlyFor, mainClose]

end Shader

end PointStyle
