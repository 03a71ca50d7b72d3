import PointStyle.Proofs.Style.Declarations

/-! The texture of a style. Much can go wrong while a style is compiled, but the texture is turned
to last, when nothing can fail any more. So no load is started in vain, whatever the operators are,
and the load, the handle that is bound, the sampler that is declared and the sample that the colour
is multiplied by come together or not at all. -/
namespace PointStyle

namespace Texture

/-- Whether a worker has been started and has not fetched the image yet. -/
def Cell.isPending (cell : Cell) : Bool :=
  match cell.work with
  | .pending => true
  | .none | .fetched _ => false

/-- The second pool has further textures, and for so many of them a load has been started. -/
def Pool.Starts (before after : Pool) (loads : Nat) : Prop :=
  ∃ made, after.cells = before.cells ++ made ∧ made.countP Cell.isPending = loads

end Texture

namespace Style

section Binding

variable (compiler : Compiler) (pool : Texture.Pool)

/-- The texture that is made for a request. -/
def Compiler.textureCell (request : TextureRequest) : Texture.Cell where
  src := request.src
  crossOrigin := request.crossOrigin
  state := if compiler.loadTextures then .loading else .idle
  work := if compiler.loadTextures then .pending else .none

theorem Compiler.isPending_textureCell (request : TextureRequest) :
    (compiler.textureCell request).isPending = compiler.loadTextures := by
  cases hLoad : compiler.loadTextures <;> simp [textureCell, Texture.Cell.isPending, hLoad]

/-- A texture that is asked for is added to the pool. -/
theorem bindTexture_some (request : TextureRequest) :
    compiler.bindTexture pool (some request) =
      (some (pool.add (compiler.textureCell request)).1,
        (pool.add (compiler.textureCell request)).2) := by
  obtain ⟨_, _, loadTextures, _⟩ := compiler
  cases loadTextures <;> rfl

/-- A load is started for a texture that is asked for, unless textures are not to be loaded. -/
theorem starts_bindTexture (request : Option TextureRequest) :
    pool.Starts (compiler.bindTexture pool request).2
      (if request.isSome ∧ compiler.loadTextures then 1 else 0) := by
  cases request with
  | none => exact ⟨[], (List.append_nil _).symm, rfl⟩
  | some request =>
      rw [bindTexture_some]
      refine ⟨[compiler.textureCell request], rfl, ?_⟩
      rw [List.countP_singleton, compiler.isPending_textureCell]
      simp

/-- The handle that is bound is a new one, and it shows the texture that was asked for. -/
theorem get?_bindTexture {request : Option TextureRequest} {handle : Texture.Handle}
    (h : (compiler.bindTexture pool request).1 = some handle) :
    ∃ asked, request = some asked ∧ pool.get? handle = none ∧
      (compiler.bindTexture pool request).2.get? handle = some (compiler.textureCell asked) := by
  cases request with
  | none => cases h
  | some asked =>
      rw [bindTexture_some] at h ⊢
      cases h
      exact ⟨asked, rfl, List.getElem?_eq_none (Nat.le_refl _), Texture.Pool.get?_add _ _⟩

end Binding

/-- A texture has the source of the symbol, and its policy or the default. -/
theorem textureRequest_eq_some {shape : Shape} {symbol : Symbol} {defaultCrossOrigin : String}
    {request : TextureRequest}
    (h : textureRequest shape symbol defaultCrossOrigin = some request) :
    symbol.src = some request.src ∧
      request.crossOrigin = symbol.crossOrigin.getD defaultCrossOrigin := by
  unfold textureRequest at h
  split at h
  · obtain ⟨src, hSrc, rfl⟩ := Option.map_eq_some_iff.mp h
    exact ⟨hSrc, rfl⟩
  · cases h

/-- Of the uniforms only that of the texture holds one. -/
theorem get?_boundUniforms_eq_texture {session : Session} {handle : Option Texture.Handle}
    {name : String} {bound : Texture.Handle} :
    (boundUniforms session handle).get? name = some (.texture bound) ↔
      name = textureUniform ∧ handle = some bound := by
  constructor
  · intro hGet
    have hName : name ∈ (boundUniforms session handle).names := by
      refine Classical.byContradiction fun hNot => ?_
      rw [Table.get?_of_not_mem hNot] at hGet
      cases hGet
    rcases List.mem_append.mp (mem_names_boundUniforms.mp hName) with hVariable | hTexture
    · obtain ⟨held, hHeld, rfl⟩ := List.mem_map.mp hVariable
      rw [get?_boundUniforms hHeld] at hGet
      cases hGet
    · cases handle with
      | none => cases hTexture
      | some handle =>
          obtain rfl := List.mem_singleton.mp hTexture
          have hSelf :=
            Table.get?_insert_self session.uniformBindings textureUniform (.texture handle)
          rw [boundUniforms, Option.elim_some, hSelf] at hGet
          cases hGet
          exact ⟨rfl, rfl⟩
  · rintro ⟨rfl, rfl⟩
    exact Table.get?_insert_self _ _ _

/-- A sampler is declared just in case a texture is asked for. -/
theorem sampler_mem_uniforms_program (style : Style) (texts : Texts) (session : Session)
    (request : Option TextureRequest) :
    "sampler2D u_texture" ∈ (Shader.Builder.fresh.applyAll
      (style.programEdits texts session request)).uniforms ↔ request.isSome := by
  have hText : "sampler2D " ++ textureUniform = "sampler2D u_texture" := by decide
  rw [uniforms_program, hText, List.mem_append]
  constructor
  · rintro (hVariable | hTexture)
    · -- Variables are held by floats.
      obtain ⟨name, _, hEq⟩ := List.mem_map.mp hVariable
      have hFirst := congrArg (·.toList.head?) hEq
      rw [String.toList_append] at hFirst
      exact absurd hFirst (by simp)
    · cases request with
      | none => cases hTexture
      | some _ => rfl
  · intro hRequest
    obtain ⟨request, rfl⟩ := Option.isSome_iff_exists.mp hRequest
    exact .inr (List.mem_singleton_self _)

/-- The sample of the texture, as it is appended to a colour. -/
def sampling : String := " * texture2D(u_texture, v_texCoord)"

theorem getLast?_append_of_getLast? {front text : String} {last : Char}
    (h : text.toList.getLast? = some last) : (front ++ text).toList.getLast? = some last := by
  rw [String.toList_append, List.getLast?_append, h, Option.some_or]

/-- A mask ends in a digit or a bracket. -/
theorem Shape.getLast?_opacityMask (shape : Shape) (size : String) :
    (shape.opacityMask size).toList.getLast? = some '0' ∨
      (shape.opacityMask size).toList.getLast? = some ')' := by
  unfold opacityMask
  cases shape with
  | square | image => exact .inl (show "1.0".toList.getLast? = some '0' by decide)
  | circle | triangle => exact .inr (getLast?_append_of_getLast? (by decide))

/-- The colour of a style does not end in a sample of its own accord: before the last parenthesis
stands the end of a mask. -/
theorem Texts.fragmentColour_ne {texts : Texts} {shape : Shape} {size : String}
    (hMask : texts.mask = shape.opacityMask size) (base : String) :
    texts.fragmentColour ≠ base ++ sampling := by
  intro hEq
  have hSample : sampling = " * texture2D(u_texture, v_texCoord" ++ ")" := by decide
  rw [fragmentColour, hMask, hSample, ← String.append_assoc] at hEq
  have hFront := String.toList_injective (List.append_cancel_right
    ((String.toList_append ..).symm.trans ((congrArg String.toList hEq).trans
      (String.toList_append ..))))
  have hPrior := congrArg (·.toList.getLast?) hFront
  have hLetter : " * texture2D(u_texture, v_texCoord".toList.getLast? = some 'd' := by decide
  simp only [getLast?_append_of_getLast? hLetter] at hPrior
  rcases shape.getLast?_opacityMask size with hEnd | hEnd
  · rw [getLast?_append_of_getLast? hEnd] at hPrior
    cases hPrior
  · rw [getLast?_append_of_getLast? hEnd] at hPrior
    cases hPrior

/-- The text for the mask is the mask of the shape. -/
theorem mask_of_lowerTexts {registry : Registry} {shape : Shape} {style : Style}
    {start session : Session} {texts : Texts}
    (h : lowerTexts registry shape style start = .ok texts session) :
    ∃ size, texts.mask = shape.opacityMask size := by
  obtain ⟨_, _, _, h⟩ := ok_of_bind h
  obtain ⟨_, _, _, h⟩ := ok_of_bind h
  obtain ⟨_, _, _, h⟩ := ok_of_bind h
  obtain ⟨_, _, _, h⟩ := ok_of_bind h
  obtain ⟨_, _, _, h⟩ := ok_of_bind h
  obtain ⟨_, _, _, h⟩ := ok_of_bind h
  obtain ⟨mask, _, hMask, h⟩ := ok_of_bind h
  obtain ⟨_, _, _, h⟩ := ok_of_bind h
  cases h
  unfold lowerMask at hMask
  split at hMask
  · obtain ⟨_, _, _, hMask⟩ := ok_of_bind hMask
    cases hMask
    exact ⟨_, rfl⟩
  · cases hMask
    exact ⟨_, rfl⟩

/-- The texts that a style is lowered to, whatever the operators of the compiler are. -/
structure Lowered (compiler : Compiler) (style : Style) where
  shape : Shape
  texts : Texts
  session : Session
  named : shape.Named style.symbol.symbolType
  texts_eq : lowerTexts compiler.registry shape style
    (Session.fresh.report ⟨.debug, "Compiling " ++ shape.name ++ " symbol style"⟩) =
      .ok texts session

/-- The style without the source of its image. -/
def withoutSource (style : Style) : Style :=
  { style with symbol := { style.symbol with src := none } }

/-- What fails has left the textures alone, and all else has been lowered. -/
theorem compile_cases (compiler : Compiler) (pool : Texture.Pool) (style : Style) :
    (∃ error, (compiler.compile pool style).result = .error error ∧
      (compiler.compile pool style).pool = pool) ∨ Nonempty (Lowered compiler style) := by
  unfold Compiler.compile
  cases hShape : Shape.ofName? style.symbol.symbolType with
  | none => exact .inl ⟨_, rfl, rfl⟩
  | some shape =>
      cases hTexts : lowerTexts compiler.registry shape style
          (Session.fresh.report ⟨.debug, "Compiling " ++ shape.name ++ " symbol style"⟩) with
      | error error session => refine .inl ⟨.expression error, ?_, ?_⟩ <;> simp only [hTexts]
      | ok texts session =>
          exact .inr ⟨⟨shape, texts, session, Shape.ofName?_eq_some_iff.mp hShape, hTexts⟩⟩

namespace Lowered

variable {compiler : Compiler} {style : Style} (lowered : Lowered compiler style)

/-- The source is no part of the texts. -/
def withoutSource : Lowered compiler style.withoutSource :=
  ⟨lowered.shape, lowered.texts, lowered.session, lowered.named, lowered.texts_eq⟩

theorem compile_eq (pool : Texture.Pool) :
    compiler.compile pool style =
      compiler.assemble lowered.shape style lowered.texts lowered.session pool := by
  simp only [Compiler.compile, Shape.ofName?_eq_some_iff.mpr lowered.named, lowered.texts_eq]

/-- The texture that the style asks for. -/
def request : Option TextureRequest :=
  textureRequest lowered.shape style.symbol compiler.defaultCrossOrigin

theorem isSome_request :
    lowered.request.isSome ↔ lowered.shape = .image ∧ style.symbol.src.isSome :=
  isSome_textureRequest ..

section Compiled

variable {pool : Texture.Pool} {compiled : Compiled}
  (hCompiled : (compiler.compile pool style).result = .ok compiled)

include hCompiled

theorem builder_eq : compiled.builder = Shader.Builder.fresh.applyAll
    (style.programEdits lowered.texts lowered.session lowered.request) := by
  rw [lowered.compile_eq, Compiler.assemble] at hCompiled
  cases hCompiled
  rfl

theorem uniforms_eq : compiled.uniforms =
    boundUniforms lowered.session (compiler.bindTexture pool lowered.request).1 := by
  rw [lowered.compile_eq, Compiler.assemble] at hCompiled
  cases hCompiled
  unfold request
  cases textureRequest lowered.shape style.symbol compiler.defaultCrossOrigin <;> rfl

/-- The colour is multiplied by a sample of the texture if there is one. -/
theorem colour_eq : compiled.builder.color = lowered.texts.fragmentColour ++
    if lowered.shape = .image ∧ style.symbol.src.isSome then sampling else "" := by
  have hColour := expression_program style lowered.texts lowered.session lowered.request .colour
  rw [← lowered.builder_eq hCompiled] at hColour
  exact hColour.trans (congrArg (_ ++ ·) (if_congr lowered.isSome_request (by decide) rfl))

end Compiled

theorem pool_eq (pool : Texture.Pool) :
    (compiler.compile pool style).pool = (compiler.bindTexture pool lowered.request).2 := by
  rw [lowered.compile_eq]
  rfl

end Lowered

/-- What a style that was compiled has of a texture. -/
structure Compiled.Textured (compiled : Compiled) (compiler : Compiler) (style : Style)
    (before after : Texture.Pool) (textured : Prop) [Decidable textured] : Prop where
  /-- One load is started, or none. -/
  loads : before.Starts after (if textured ∧ compiler.loadTextures then 1 else 0)
  held : (∃ name handle, compiled.uniforms.get? name = some (.texture handle)) ↔ textured
  /-- The handle that is held is that of a new texture, with the source and the policy of the
  style. -/
  handle : ∀ name handle, compiled.uniforms.get? name = some (.texture handle) →
    name = "u_texture" ∧ before.get? handle = none ∧ ∃ cell, after.get? handle = some cell ∧
      style.symbol.src = some cell.src ∧
      cell.crossOrigin = style.symbol.crossOrigin.getD compiler.defaultCrossOrigin ∧
      cell.isPending = compiler.loadTextures ∧ (compiler.loadTextures = false → cell.state = .idle)
  declared : "sampler2D u_texture" ∈ compiled.builder.uniforms ↔ textured
  sampled : (∃ base, compiled.builder.color = base ++ sampling) ↔
    "sampler2D u_texture" ∈ compiled.builder.uniforms
  /-- The sample is appended to the colour that the style has without a source. -/
  colour : ∃ plain, (compiler.compile before style.withoutSource).result = .ok plain ∧
    compiled.builder.color = plain.builder.color ++ if textured then sampling else ""

/-- All that has to do with the texture comes together or not at all. -/
theorem Lowered.textured {compiler : Compiler} {style : Style} (lowered : Lowered compiler style)
    {pool : Texture.Pool} {compiled : Compiled}
    (hCompiled : (compiler.compile pool style).result = .ok compiled) :
    compiled.Textured compiler style pool (compiler.compile pool style).pool
      (lowered.shape = .image ∧ style.symbol.src.isSome) := by
  have hColour := lowered.colour_eq hCompiled
  have hDeclared : "sampler2D u_texture" ∈ compiled.builder.uniforms ↔
      lowered.shape = .image ∧ style.symbol.src.isSome := by
    rw [lowered.builder_eq hCompiled, sampler_mem_uniforms_program, lowered.isSome_request]
  refine ⟨?_, ?_, ?_, hDeclared, ?_, ?_⟩
  · simp only [lowered.pool_eq, ← lowered.isSome_request]
    exact starts_bindTexture ..
  · simp only [lowered.uniforms_eq hCompiled, get?_boundUniforms_eq_texture,
      ← lowered.isSome_request, exists_and_left, exists_eq_left, ← Option.isSome_iff_exists,
      isSome_bindTexture]
  · intro name handle hHandle
    rw [lowered.uniforms_eq hCompiled, get?_boundUniforms_eq_texture] at hHandle
    obtain ⟨asked, hAsked, hNew, hCell⟩ := get?_bindTexture compiler pool hHandle.2
    obtain ⟨hSrc, hOrigin⟩ := textureRequest_eq_some hAsked
    refine ⟨hHandle.1, hNew, compiler.textureCell asked, lowered.pool_eq pool ▸ hCell, hSrc,
      hOrigin, compiler.isPending_textureCell asked, fun hLoad => ?_⟩
    simp [Compiler.textureCell, hLoad]
  · rw [hDeclared]
    constructor
    · rintro ⟨base, hBase⟩
      refine Classical.byContradiction fun hNot => ?_
      rw [hColour, if_neg hNot, String.append_empty] at hBase
      obtain ⟨size, hMask⟩ := mask_of_lowerTexts lowered.texts_eq
      exact Texts.fragmentColour_ne hMask base hBase
    · intro hTextured
      rw [if_pos hTextured] at hColour
      exact ⟨_, hColour⟩
  · have hPlain : ∃ plain, (compiler.compile pool style.withoutSource).result = .ok plain := by
      rw [lowered.withoutSource.compile_eq]
      exact ⟨_, rfl⟩
    obtain ⟨plain, hPlain⟩ := hPlain
    have hOwn := lowered.withoutSource.colour_eq hPlain
    rw [if_neg (by simp [Style.withoutSource]), String.append_empty] at hOwn
    exact ⟨plain, hPlain, by rw [hOwn, hColour]; rfl⟩

/-- Compiling starts no load in vain. A style that fails leaves the textures as they are. One that
compiles starts a single load if it is an image with a source and textures are loaded, and none
otherwise; it holds a texture of that source exactly if it is an image with one; and the sample is
appended to its colour exactly if the sampler is declared. -/
theorem loads_start_on_success (compiler : Compiler) (pool : Texture.Pool) (style : Style) :
    (∀ error, (compiler.compile pool style).result = .error error →
      (compiler.compile pool style).pool = pool) ∧
    ∀ compiled, (compiler.compile pool style).result = .ok compiled →
      ∃ shape : Shape, shape.Named style.symbol.symbolType ∧
        compiled.Textured compiler style pool (compiler.compile pool style).pool
          (shape = .image ∧ style.symbol.src.isSome) := by
  rcases compile_cases compiler pool style with ⟨error, hError, hPool⟩ | ⟨⟨lowered⟩⟩
  · refine ⟨fun _ _ => hPool, fun compiled hCompiled => ?_⟩
    rw [hError] at hCompiled
    cases hCompiled
  · refine ⟨fun error hError => ?_, fun compiled hCompiled => ?_⟩
    · rw [lowered.compile_eq] at hError
      cases hError
    · exact ⟨lowered.shape, lowered.named, lowered.textured hCompiled⟩

/-- An image that leaves all but its source to defaults. -/
def samplePin : Style where
  filter := none
  variableValues := []
  symbol := { Symbol.ofType "image" with src := some "pin.png" }

theorem loads_start_on_success_samplePin :
    ∃ compiled,
      ((Compiler.standard (Resource.Memory.provider [])).compile .empty samplePin).result =
        .ok compiled ∧
      Texture.Pool.empty.Starts
        ((Compiler.standard (Resource.Memory.provider [])).compile .empty samplePin).pool 1 ∧
      "sampler2D u_texture" ∈ compiled.builder.uniforms ∧
      ∃ base, compiled.builder.color = base ++ sampling := by
  have hCompile : ∃ compiled,
      ((Compiler.standard (Resource.Memory.provider [])).compile .empty samplePin).result =
        .ok compiled := ⟨_, rfl⟩
  obtain ⟨compiled, hCompiled⟩ := hCompile
  obtain ⟨shape, hShape, hTextured⟩ := (loads_start_on_success _ _ _).2 compiled hCompiled
  cases Shape.ofName?_eq_some_iff.mpr hShape
  have hSampler := hTextured.declared.mpr ⟨rfl, rfl⟩
  exact ⟨compiled, hCompiled, hTextured.loads, hSampler, hTextured.sampled.mpr hSampler⟩

end Style

end PointStyle
