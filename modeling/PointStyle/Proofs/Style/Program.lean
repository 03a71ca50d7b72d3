import PointStyle.Proofs.Shader.Edits
import PointStyle.Proofs.Style.Passages

/-! How the programs of a style are put together: what they declare comes from the references of the
session, and what they compute from the texts of the passages. -/
namespace PointStyle

namespace Style

open Shader.Builder (Edit)

/-- The changes that make up the programs of a style. -/
def programEdits (style : Style) (texts : Texts) (session : Session)
    (request : Option TextureRequest) : List Edit :=
  texts.edits style.symbol.rotateWithView ++ session.uniformEdits ++ textureEdits texts request ++
    session.referenceEdits

/-- How a compiled style came about: the shape, the texts of its expressions with that of the size
in the mask, and the session that they were lowered in. -/
structure Assembly (compiler : Compiler) (pool : Texture.Pool) (style : Style)
    (compiled : Compiled) where
  shape : Shape
  texts : Texts
  maskSize : String
  session : Session
  named : shape.Named style.symbol.symbolType
  reflects : session.Reflects (style.passages shape texts maskSize)
  mask_eq : texts.mask = shape.opacityMask
    (if shape.needsVisibleSize then "vec2(" ++ maskSize ++ ").x" else "")
  builder_eq : compiled.builder = Shader.Builder.fresh.applyAll (style.programEdits texts session
    (textureRequest shape style.symbol compiler.defaultCrossOrigin))
  attributes_eq : compiled.attributes = session.attributes
  uniforms_eq : compiled.uniforms = ((compiler.bindTexture pool
      (textureRequest shape style.symbol compiler.defaultCrossOrigin)).1).elim
    session.uniformBindings fun handle =>
      session.uniformBindings.insert textureUniform (.texture handle)
  literals_eq : compiled.literals = session.literals

/-- A style that compiles under the built-in operators is put together in this way. -/
theorem compile_ok {compiler : Compiler} {pool : Texture.Pool} {style : Style}
    {compiled : Compiled} (hRegistry : compiler.registry = .builtin)
    (h : (compiler.compile pool style).result = .ok compiled) :
    Nonempty (Assembly compiler pool style compiled) := by
  unfold Compiler.compile at h
  rw [hRegistry] at h
  cases hShape : Shape.ofName? style.symbol.symbolType with
  | none =>
      rw [hShape] at h
      cases h
  | some shape =>
      rw [hShape] at h
      cases hTexts : lowerTexts .builtin shape style
          (Session.fresh.report ⟨.debug, "Compiling " ++ shape.name ++ " symbol style"⟩) with
      | error error session =>
          simp only [hTexts] at h
          cases h
      | ok texts session =>
          simp only [hTexts] at h
          unfold Compiler.assemble at h
          cases h
          obtain ⟨maskSize, hMask, hReflects⟩ :=
            reflects_lowerTexts (Session.reflects_fresh.report _) hTexts
          have hNamed := Shape.ofName?_eq_some_iff.mp hShape
          refine ⟨⟨shape, texts, maskSize, session, hNamed, hReflects, hMask, rfl, rfl, ?_, rfl⟩⟩
          cases textureRequest shape style.symbol compiler.defaultCrossOrigin <;> rfl

section Programs

variable (style : Style) (texts : Texts) (session : Session) (request : Option TextureRequest)

/-- A program declares the uniforms of its variables, and of the texture if there is one. -/
theorem uniforms_program :
    (Shader.Builder.fresh.applyAll (style.programEdits texts session request)).uniforms =
      session.variableNames.map ("float " ++ Glsl.uniformName ·) ++
        (request.map fun _ => "sampler2D " ++ textureUniform).toList := by
  rw [Shader.Builder.uniforms_applyAll]
  cases hFilter : texts.filter <;> cases request <;>
    simp [Shader.Builder.fresh, programEdits, Texts.edits, hFilter, Session.uniformEdits,
      textureEdits, Session.referenceEdits, Edit.uniform?, List.filterMap_cons, List.filterMap_map,
      Function.comp_def]

/-- A program declares the attributes that the vertex program reads. -/
theorem attributes_program :
    (Shader.Builder.fresh.applyAll (style.programEdits texts session request)).attributes =
      session.attributes.map ("float " ++ Glsl.attributeName .vertex ·) := by
  rw [Shader.Builder.attributes_applyAll]
  cases hFilter : texts.filter <;> cases request <;>
    simp [Shader.Builder.fresh, programEdits, Texts.edits, hFilter, Session.uniformEdits,
      textureEdits, Session.referenceEdits, Edit.attribute?, List.filterMap_cons,
      List.filterMap_map, Function.comp_def]

/-- A program declares a varying for each attribute that it passes on. -/
theorem varyings_program :
    (Shader.Builder.fresh.applyAll (style.programEdits texts session request)).varyings =
      session.fragment.attributes.map fun name =>
        ⟨Glsl.attributeName .fragment name, .float, Glsl.attributeName .vertex name⟩ := by
  rw [Shader.Builder.varyings_applyAll]
  cases hFilter : texts.filter <;> cases request <;>
    simp [Shader.Builder.fresh, programEdits, Texts.edits, hFilter, Session.uniformEdits,
      textureEdits, Session.referenceEdits, Edit.varying?, List.filterMap_cons, List.filterMap_map,
      Function.comp_def]

theorem functions_program :
    (Shader.Builder.fresh.applyAll (style.programEdits texts session request)).functions =
      session.functions.map (·.2) := by
  rw [Shader.Builder.functions_applyAll]
  cases hFilter : texts.filter <;> cases request <;>
    simp [Shader.Builder.fresh, programEdits, Texts.edits, hFilter, Session.uniformEdits,
      textureEdits, Session.referenceEdits, Edit.function?, List.filterMap_cons, List.filterMap_map,
      Function.comp_def]

/-- The expressions of the programs, made of the texts. -/
def Texts.expression (texts : Texts) (textured : Prop) [Decidable textured] :
    Shader.Builder.Place → String
  | .size => "vec2(" ++ texts.size ++ ")"
  | .rotation => texts.rotation
  | .offset => texts.offset
  | .texCoord => texts.textureCoord
  | .colour => texts.fragmentColour ++
    if textured then " * texture2D(" ++ textureUniform ++ ", v_texCoord)" else ""
  | .discard => (texts.filter.map ("!" ++ ·)).getD "false"

/-- Each expression of a program is the text that was lowered for it. -/
theorem expression_program (place : Shader.Builder.Place) :
    (Shader.Builder.fresh.applyAll (style.programEdits texts session request)).expression place =
      texts.expression request.isSome place := by
  have hUniform : session.uniformEdits.filterMap (Edit.expression? place) = [] := by
    refine List.filterMap_eq_nil_iff.mpr fun edit hEdit => ?_
    obtain ⟨name, _, rfl⟩ := List.mem_map.mp hEdit
    cases place <;> rfl
  have hReference : session.referenceEdits.filterMap (Edit.expression? place) = [] := by
    refine List.filterMap_eq_nil_iff.mpr fun edit hEdit => ?_
    simp only [Session.referenceEdits, List.mem_append, List.mem_map] at hEdit
    rcases hEdit with (⟨_, _, rfl⟩ | ⟨_, _, rfl⟩) | ⟨_, _, rfl⟩ <;> cases place <;> rfl
  rw [Shader.Builder.expression_applyAll, programEdits, List.filterMap_append,
    List.filterMap_append, List.filterMap_append, hUniform, hReference, List.append_nil,
    List.append_nil]
  unfold Texts.edits Texts.expression
  cases place with
  | colour =>
      cases texts.filter <;> cases request <;>
        simp [Edit.expression?, textureEdits, List.filterMap_cons, String.append_assoc]
  | size | rotation | offset | texCoord | discard => cases texts.filter <;> cases request <;> rfl

end Programs

/-- A texture is asked for just in case the shape is an image with a source. -/
theorem isSome_textureRequest (shape : Shape) (symbol : Symbol) (crossOrigin : String) :
    (textureRequest shape symbol crossOrigin).isSome ↔ shape = .image ∧ symbol.src.isSome := by
  unfold textureRequest
  by_cases hShape : shape = .image
  · simp [hShape]
  · simp [hShape]

/-- Each expression of a compiled style is the text that was lowered for it. -/
theorem Assembly.expression_eq {compiler : Compiler} {pool : Texture.Pool} {style : Style}
    {compiled : Compiled} (a : Assembly compiler pool style compiled)
    (place : Shader.Builder.Place) :
    compiled.builder.expression place =
      a.texts.expression (a.shape = .image ∧ style.symbol.src.isSome) place := by
  rw [a.builder_eq, expression_program]
  cases place with
  | colour => exact congrArg (_ ++ ·) (if_congr (isSome_textureRequest ..) rfl rfl)
  | size | rotation | offset | texCoord | discard => rfl

/-- A circle with attributes in its size, its colour and its filter, and a variable in its
opacity. -/
def sampleCircle : Style where
  filter := some (.call "==" [.call "get" [.string "kind"], .string "a"])
  variableValues := [("shade", .string "b")]
  symbol := { Symbol.ofType "circle" with
    size := some (.call "get" [.string "width"])
    color := some (.call "color" [.call "get" [.string "heat"], .number 0, .number 0])
    opacity := some (.call "case"
      [.call "==" [.call "var" [.string "shade"], .string "b"], .number 0.5, .number 1]) }

example : ∃ compiled,
    ((Compiler.standard (Resource.Memory.provider [])).compile .empty sampleCircle).result =
      .ok compiled ∧ compiled.builder.expression .discard = "!(v_kind == 1.0)" :=
  ⟨_, rfl, by decide +kernel⟩

end Style

end PointStyle
