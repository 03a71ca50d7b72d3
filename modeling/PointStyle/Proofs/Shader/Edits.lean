import PointStyle.Shader.Program

/-! What the parts of a program hold after any number of changes. A part that is collected holds
what was added to it, a part that is overwritten what it was last set to, and no part heeds the
changes of another. So the order of changes to different parts is free, and each program shows only
the parts it is made of. -/
namespace PointStyle

/-- The last value that is given counts, and the first gives way to any later one. -/
theorem getLast?_filterMap_cons {α β : Type} (f : α → Option β) (a : α) (rest : List α) (b : β) :
    ((a :: rest).filterMap f).getLast?.getD b =
      (rest.filterMap f).getLast?.getD ((f a).getD b) := by
  cases hValue : f a with
  | none => rw [List.filterMap_cons_none hValue]; rfl
  | some value =>
      rw [List.filterMap_cons_some hValue, List.getLast?_cons]
      rfl

namespace Shader.Builder

namespace Edit

def uniform? : Edit → Option String
  | .addUniform declaration => some declaration
  | _ => none

def attribute? : Edit → Option String
  | .addAttribute declaration => some declaration
  | _ => none

def varying? : Edit → Option Varying
  | .addVarying v => some v
  | _ => none

def function? : Edit → Option String
  | .addFunction definition => some definition
  | _ => none

end Edit

/-- A part that changes only add to holds what was added, in order. -/
theorem collected_applyAll {α : Type} {part : Builder → List α} {added? : Edit → Option α}
    (hApply : ∀ b edit, part (b.apply edit) = part b ++ (added? edit).toList) (b : Builder)
    (edits : List Edit) : part (b.applyAll edits) = part b ++ edits.filterMap added? := by
  induction edits generalizing b with
  | nil => exact (List.append_nil _).symm
  | cons edit rest ih =>
      show part ((b.apply edit).applyAll rest) = _
      rw [ih, hApply, List.append_assoc]
      cases hAdded : added? edit with
      | none => rw [List.filterMap_cons_none hAdded]; rfl
      | some a => rw [List.filterMap_cons_some hAdded]; rfl

/-- The uniforms are those that were added, in order. -/
theorem uniforms_applyAll (b : Builder) (edits : List Edit) :
    (b.applyAll edits).uniforms = b.uniforms ++ edits.filterMap Edit.uniform? := by
  refine collected_applyAll (fun b edit => ?_) b edits
  cases edit <;> simp [apply, Edit.uniform?]

theorem attributes_applyAll (b : Builder) (edits : List Edit) :
    (b.applyAll edits).attributes = b.attributes ++ edits.filterMap Edit.attribute? := by
  refine collected_applyAll (fun b edit => ?_) b edits
  cases edit <;> simp [apply, Edit.attribute?]

theorem varyings_applyAll (b : Builder) (edits : List Edit) :
    (b.applyAll edits).varyings = b.varyings ++ edits.filterMap Edit.varying? := by
  refine collected_applyAll (fun b edit => ?_) b edits
  cases edit <;> simp [apply, Edit.varying?]

theorem functions_applyAll (b : Builder) (edits : List Edit) :
    (b.applyAll edits).functions = b.functions ++ edits.filterMap Edit.function? := by
  refine collected_applyAll (fun b edit => ?_) b edits
  cases edit <;> simp [apply, Edit.function?]

/-- The places of a program that hold an expression. -/
inductive Place where
  | size
  | rotation
  | offset
  | texCoord
  | colour
  | discard

def expression (b : Builder) : Place → String
  | .size => b.size
  | .rotation => b.rotation
  | .offset => b.offset
  | .texCoord => b.texCoord
  | .colour => b.color
  | .discard => b.discard

/-- The expression that a change puts at a place. -/
def Edit.expression? : Place → Edit → Option String
  | .size, .setSize text => some text
  | .rotation, .setRotation text => some text
  | .offset, .setOffset text => some text
  | .texCoord, .setTexCoord text => some text
  | .colour, .setColor text => some text
  | .discard, .setDiscard text => some text
  | _, _ => none

def Edit.rotateWithView? : Edit → Option Bool
  | .setRotateWithView flag => some flag
  | _ => none

/-- A part that changes overwrite holds what it was last set to. -/
theorem assigned_applyAll {α : Type} (part : Builder → α) (assigned? : Edit → Option α)
    (hApply : ∀ b edit, part (b.apply edit) = (assigned? edit).getD (part b)) (b : Builder)
    (edits : List Edit) :
    part (b.applyAll edits) = (edits.filterMap assigned?).getLast?.getD (part b) := by
  induction edits generalizing b with
  | nil => rfl
  | cons edit rest ih =>
      show part ((b.apply edit).applyAll rest) = _
      rw [ih, hApply, getLast?_filterMap_cons]

/-- The last expression that is put at a place stays there. -/
theorem expression_applyAll (place : Place) (b : Builder) (edits : List Edit) :
    (b.applyAll edits).expression place =
      (edits.filterMap (Edit.expression? place)).getLast?.getD (b.expression place) := by
  refine assigned_applyAll (·.expression place) (Edit.expression? place) (fun b edit => ?_) b edits
  cases place <;> cases edit <;> rfl

/-- The setting for the view is the last that was made. -/
theorem rotateWithView_applyAll (b : Builder) (edits : List Edit) :
    (b.applyAll edits).rotateWithView =
      (edits.filterMap Edit.rotateWithView?).getLast?.getD b.rotateWithView := by
  refine assigned_applyAll Builder.rotateWithView Edit.rotateWithView? (fun b edit => ?_) b edits
  cases edit <;> rfl

/-- Two runs of changes add the same to each list, in the same order, and set each of the other
parts to the same in the end, or not at all. -/
structure Edit.SameByPart (edits others : List Edit) : Prop where
  uniforms : edits.filterMap uniform? = others.filterMap uniform?
  attributes : edits.filterMap attribute? = others.filterMap attribute?
  varyings : edits.filterMap varying? = others.filterMap varying?
  functions : edits.filterMap function? = others.filterMap function?
  expressions : ∀ place, (edits.filterMap (expression? place)).getLast? =
    (others.filterMap (expression? place)).getLast?
  rotateWithView : (edits.filterMap rotateWithView?).getLast? =
    (others.filterMap rotateWithView?).getLast?

theorem eq_of_parts {b c : Builder} (hUniforms : b.uniforms = c.uniforms)
    (hAttributes : b.attributes = c.attributes) (hVaryings : b.varyings = c.varyings)
    (hFunctions : b.functions = c.functions)
    (hExpressions : ∀ place, b.expression place = c.expression place)
    (hRotate : b.rotateWithView = c.rotateWithView) : b = c := by
  rw [mk.injEq]
  exact ⟨hUniforms, hAttributes, hVaryings, hFunctions, hExpressions .size, hExpressions .rotation,
    hExpressions .offset, hExpressions .colour, hExpressions .texCoord,
    hExpressions .discard, hRotate⟩

/-- Only the order of changes to one and the same part matters. -/
theorem applyAll_eq_of_sameByPart {edits others : List Edit} (h : Edit.SameByPart edits others)
    (b : Builder) : b.applyAll edits = b.applyAll others := by
  refine eq_of_parts ?_ ?_ ?_ ?_ (fun place => ?_) ?_
  · rw [uniforms_applyAll, uniforms_applyAll, h.uniforms]
  · rw [attributes_applyAll, attributes_applyAll, h.attributes]
  · rw [varyings_applyAll, varyings_applyAll, h.varyings]
  · rw [functions_applyAll, functions_applyAll, h.functions]
  · rw [expression_applyAll, expression_applyAll, h.expressions]
  · rw [rotateWithView_applyAll, rotateWithView_applyAll, h.rotateWithView]

/-- What a program shows of its parts; the others are blanked out. The fragment program declares the
varyings, but leaves their expressions to the vertex program. -/
def visible (b : Builder) : Stage → Builder
  | .vertex => { b with color := "", discard := "" }
  | .fragment =>
    { b with
      attributes := []
      varyings := b.varyings.map fun v => { v with expression := "" }
      size := ""
      rotation := ""
      offset := ""
      texCoord := ""
      rotateWithView := false }

/-- A program shows only its own parts. -/
theorem program_visible (b : Builder) (stage : Stage) (hit : Bool) :
    (b.visible stage).program stage hit = b.program stage hit := by
  cases stage with
  | vertex => rfl
  | fragment =>
      have hVaryings : (b.visible .fragment).varyingLines = b.varyingLines :=
        List.map_map.trans rfl
      unfold program fragmentLines
      rw [hVaryings]
      rfl

/-- Changes to different parts are independent. Runs that agree part by part make the same programs,
and programs whose parts differ only in what the stage does not show are the same. -/
theorem programs_of_same_parts :
    (∀ edits others : List Edit, Edit.SameByPart edits others → ∀ stage hit,
      (fresh.applyAll edits).program stage hit = (fresh.applyAll others).program stage hit) ∧
    ∀ (stage : Stage) (b c : Builder), b.visible stage = c.visible stage → ∀ hit,
      b.program stage hit = c.program stage hit := by
  refine ⟨fun edits others hSame stage hit => ?_, fun stage b c hVisible hit => ?_⟩
  · rw [applyAll_eq_of_sameByPart hSame]
  · rw [← b.program_visible, hVisible, c.program_visible]

/-- The parts of a symbol that is coloured by speed, after a first colour that is overwritten. -/
def sampleEdits : List Edit :=
  [.setColor "vec4(0.5)", .addUniform "float u_var_limit", .addUniform "float u_var_scale",
   .addAttribute "float a_speed", .addVarying ⟨"v_speed", .float, "a_speed"⟩,
   .setColor "vec4(v_speed / u_var_scale)", .setDiscard "v_speed > u_var_limit"]

/-- The same parts in another order. -/
def sampleEditsReordered : List Edit :=
  [.setDiscard "v_speed > u_var_limit", .addVarying ⟨"v_speed", .float, "a_speed"⟩,
   .addUniform "float u_var_limit", .setColor "vec4(v_speed / u_var_scale)",
   .addAttribute "float a_speed", .addUniform "float u_var_scale"]

theorem programs_of_same_parts_sampleEdits :
    Edit.SameByPart sampleEdits sampleEditsReordered ∧
    (∀ stage hit, (fresh.applyAll sampleEdits).program stage hit =
      (fresh.applyAll sampleEditsReordered).program stage hit) ∧
    (∀ hit, ((fresh.applyAll sampleEdits).apply (.setColor "vec4(1.0)")).program .vertex hit =
      (fresh.applyAll sampleEdits).program .vertex hit) ∧
    ∀ hit, (fresh.apply (.addVarying ⟨"v_speed", .float, "a_speed * 3.6"⟩)).program .fragment hit =
      (fresh.apply (.addVarying ⟨"v_speed", .float, "a_speed"⟩)).program .fragment hit := by
  have hSame : Edit.SameByPart sampleEdits sampleEditsReordered :=
    ⟨rfl, rfl, rfl, rfl, fun place => by cases place <;> rfl, rfl⟩
  exact ⟨hSame, programs_of_same_parts.1 _ _ hSame, programs_of_same_parts.2 .vertex _ _ rfl,
    programs_of_same_parts.2 .fragment _ _ rfl⟩

end Shader.Builder

end PointStyle
