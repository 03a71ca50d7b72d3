import PointStyle.Proofs.Shader.Header
import PointStyle.Proofs.Style.Declarations

/-! When the inputs of a program have distinct names. Variables get names that no other input has,
but the properties of features share theirs with the inputs that every program has. So a property
that is named like one of these is declared a second time. -/
namespace PointStyle

namespace Style

open Shader (Input declaredNames header onlyFor)

/-- The attributes of every vertex program, by their names without the mark. -/
def reservedAttributes (hit : Bool) : List String :=
  ["position", "index"] ++ onlyFor hit ["hitColor"]

/-- The varyings of every program, by their names without the mark. -/
def reservedVaryings (hit : Bool) : List String :=
  ["texCoord", "quadCoord"] ++ onlyFor hit ["hitColor"]

section Inputs

variable (passed read held : List String) (textured : Prop) [Decidable textured]

def uniformInputs (stage : Stage) : List Input :=
  (match stage with
    | .vertex =>
      ["projectionMatrix", "offsetScaleMatrix", "offsetRotateMatrix"].map (.mk .uniform "mat4")
    | .fragment => []) ++
  (["time", "zoom", "resolution"] ++ held.map ("var_" ++ ·)).map (.mk .uniform "float") ++
  if textured then [⟨.uniform, "sampler2D", "texture"⟩] else []

def attributeInputs (hit : Bool) : Stage → List Input
  | .vertex => ⟨.attribute, "vec2", "position"⟩ :: ("index" :: read).map (.mk .attribute "float") ++
    (onlyFor hit ["hitColor"]).map (.mk .attribute "vec4")
  | .fragment => []

def varyingInputs (hit : Bool) : List Input :=
  ["texCoord", "quadCoord"].map (.mk .varying "vec2") ++ passed.map (.mk .varying "float") ++
    (onlyFor hit ["hitColor"]).map (.mk .varying "vec4")

/-- The inputs of a program in the order of their declarations. -/
def programInputs (stage : Stage) (hit : Bool) : List Input :=
  uniformInputs held textured stage ++ attributeInputs read hit stage ++ varyingInputs passed hit

variable {passed read held textured} {stage : Stage} {hit : Bool}

/-- Names in the middle of others are distinct from them unless they share one. -/
theorem nodup_between {front names back : List String} (hOwn : (front ++ back).Nodup)
    (hNames : names.Nodup) :
    (front ++ names ++ back).Nodup ↔ ∀ name ∈ front ++ back, name ∉ names := by
  have hPerm : (front ++ names ++ back).Perm (front ++ back ++ names) := by
    rw [List.append_assoc, List.append_assoc]
    exact List.perm_append_comm.append_left front
  rw [hPerm.nodup_iff, List.nodup_append]
  refine ⟨fun h name hName hMem => h.2.2 name hName name hMem rfl, fun h => ⟨hOwn, hNames, ?_⟩⟩
  rintro name hName _ hMem rfl
  exact h name hName hMem

/-- Uniforms have distinct names, whatever the variables are called. -/
theorem nodup_uniformInputs (hHeld : held.Nodup) :
    ((uniformInputs held textured stage).map Input.name).Nodup := by
  have hNames : ∃ front back, (front ++ back).Nodup ∧
      (∀ name ∈ front ++ back, name.toList.head? ≠ some 'v') ∧
      (uniformInputs held textured stage).map Input.name =
        front ++ held.map ("var_" ++ ·) ++ back := by
    unfold uniformInputs
    cases stage <;> by_cases hTextured : textured
    · exact ⟨["projectionMatrix", "offsetScaleMatrix", "offsetRotateMatrix", "time", "zoom",
        "resolution"], ["texture"], by decide, by decide, by simp [hTextured]⟩
    · exact ⟨["projectionMatrix", "offsetScaleMatrix", "offsetRotateMatrix", "time", "zoom",
        "resolution"], [], by decide, by decide, by simp [hTextured]⟩
    · exact ⟨["time", "zoom", "resolution"], ["texture"], by decide, by decide, by simp [hTextured]⟩
    · exact ⟨["time", "zoom", "resolution"], [], by decide, by decide, by simp [hTextured]⟩
  obtain ⟨front, back, hOwn, hFirst, hNames⟩ := hNames
  -- No built-in uniform starts with the first letter of the variables' names.
  have hVariables : (held.map ("var_" ++ ·)).Nodup :=
    hHeld.map fun name other hEq => (String.append_right_inj _).mp hEq
  rw [hNames, nodup_between hOwn hVariables]
  intro name hName hVariable
  obtain ⟨variableName, _, rfl⟩ := List.mem_map.mp hVariable
  exact hFirst _ hName (by simp)

/-- Attributes have distinct names unless a property is named like a built-in attribute. -/
theorem nodup_attributeInputs (hRead : read.Nodup) :
    ((attributeInputs read hit stage).map Input.name).Nodup ↔
      (stage = .vertex → ∀ name ∈ reservedAttributes hit, name ∉ read) := by
  cases stage with
  | fragment => simp [attributeInputs]
  | vertex =>
      have hOwn : (reservedAttributes hit).Nodup := by cases hit <;> decide
      rw [reservedAttributes] at hOwn ⊢
      rw [← nodup_between hOwn hRead]
      simp [attributeInputs, Function.comp_def]

/-- Varyings have distinct names unless a property is named like a built-in varying. -/
theorem nodup_varyingInputs (hPassed : passed.Nodup) :
    ((varyingInputs passed hit).map Input.name).Nodup ↔
      ∀ name ∈ reservedVaryings hit, name ∉ passed := by
  have hOwn : (reservedVaryings hit).Nodup := by cases hit <;> decide
  rw [reservedVaryings] at hOwn ⊢
  rw [← nodup_between hOwn hPassed]
  simp [varyingInputs, Function.comp_def]

theorem kind_uniformInputs :
    ∀ input ∈ uniformInputs held textured stage, input.kind = .uniform := by
  cases stage <;> grind [uniformInputs]

theorem kind_attributeInputs :
    ∀ input ∈ attributeInputs read hit stage, input.kind = .attribute := by
  cases stage <;> grind [attributeInputs]

theorem kind_varyingInputs : ∀ input ∈ varyingInputs passed hit, input.kind = .varying := by
  grind [varyingInputs]

/-- The inputs of a program have distinct names unless a property is named like a built-in input of
its kind. -/
theorem nodup_programInputs (hPassed : passed.Nodup) (hRead : read.Nodup) (hHeld : held.Nodup) :
    ((programInputs passed read held textured stage hit).map Input.fullName).Nodup ↔
      (stage = .vertex → ∀ name ∈ reservedAttributes hit, name ∉ read) ∧
        ∀ name ∈ reservedVaryings hit, name ∉ passed := by
  rw [programInputs, Shader.nodup_fullNames_append, Shader.nodup_fullNames_append,
    Shader.nodup_fullNames_of_kind kind_uniformInputs,
    Shader.nodup_fullNames_of_kind kind_attributeInputs,
    Shader.nodup_fullNames_of_kind kind_varyingInputs, nodup_attributeInputs hRead,
    nodup_varyingInputs hPassed, and_iff_right (nodup_uniformInputs hHeld)]
  · intro input hInput other hOther
    rw [kind_uniformInputs input hInput, kind_attributeInputs other hOther]
    decide
  · intro input hInput other hOther
    rw [kind_varyingInputs other hOther]
    rcases List.mem_append.mp hInput with hInput | hInput
    · rw [kind_uniformInputs input hInput]
      decide
    · rw [kind_attributeInputs input hInput]
      decide

/-- The inputs that programs have of their own. -/
def ownInputs : List Input :=
  ["projectionMatrix", "offsetScaleMatrix", "offsetRotateMatrix"].map (.mk .uniform "mat4") ++
  ["time", "zoom", "resolution"].map (.mk .uniform "float") ++
  [⟨.uniform, "sampler2D", "texture"⟩, ⟨.attribute, "vec2", "position"⟩,
   ⟨.attribute, "float", "index"⟩, ⟨.attribute, "vec4", "hitColor"⟩, ⟨.varying, "vec2", "texCoord"⟩,
   ⟨.varying, "vec2", "quadCoord"⟩, ⟨.varying, "vec4", "hitColor"⟩]

/-- An input is built in, or holds a variable, or a property. -/
theorem mem_programInputs {input : Input}
    (hInput : input ∈ programInputs passed read held textured stage hit) :
    input ∈ ownInputs ∨ (∃ name ∈ held, input = ⟨.uniform, "float", "var_" ++ name⟩) ∨
      (∃ name ∈ read, input = ⟨.attribute, "float", name⟩) ∨
      ∃ name ∈ passed, input = ⟨.varying, "float", name⟩ := by
  have hHit : ∀ kind ∈ [Shader.InputKind.attribute, .varying],
      ∀ other ∈ (onlyFor hit ["hitColor"]).map (Input.mk kind "vec4"), other ∈ ownInputs := by
    cases hit <;> decide
  simp only [programInputs, uniformInputs, varyingInputs, List.map_append,
    List.mem_append] at hInput
  rcases hInput with (((hMatrix | hView | hHeld) | hTexture) | hAttribute) |
    (hQuad | hPassed) | hPick
  · cases stage with
    | vertex => exact .inl (List.mem_append_left _ (List.mem_append_left _ hMatrix))
    | fragment => cases hMatrix
  · exact .inl (List.mem_append_left _ (List.mem_append_right _ hView))
  · rw [List.map_map] at hHeld
    obtain ⟨name, hName, rfl⟩ := List.mem_map.mp hHeld
    exact .inr (.inl ⟨name, hName, rfl⟩)
  · split at hTexture
    · rw [List.mem_singleton.mp hTexture]
      exact .inl (by decide)
    · cases hTexture
  · cases stage with
    | vertex =>
        simp only [attributeInputs, List.cons_append, List.map_cons, List.mem_cons,
          List.mem_append] at hAttribute
        rcases hAttribute with rfl | rfl | hRead | hPick
        · exact .inl (by decide)
        · exact .inl (by decide)
        · obtain ⟨name, hName, rfl⟩ := List.mem_map.mp hRead
          exact .inr (.inr (.inl ⟨name, hName, rfl⟩))
        · exact .inl (hHit .attribute (by decide) input hPick)
    | fragment => cases hAttribute
  · have hOwn : ∀ other ∈ ["texCoord", "quadCoord"].map (Input.mk .varying "vec2"),
        other ∈ ownInputs := by decide
    exact .inl (hOwn input hQuad)
  · obtain ⟨name, hName, rfl⟩ := List.mem_map.mp hPassed
    exact .inr (.inr (.inr ⟨name, hName, rfl⟩))
  · exact .inl (hHit .varying (by decide) input hPick)

theorem type_programInputs {input : Input}
    (hInput : input ∈ programInputs passed read held textured stage hit) :
    ' ' ∉ input.type.toList ∧ '\n' ∉ input.type.toList := by
  have hOwn : ∀ input ∈ ownInputs, ' ' ∉ input.type.toList ∧ '\n' ∉ input.type.toList := by decide
  rcases mem_programInputs hInput with h | ⟨name, _, rfl⟩ | ⟨name, _, rfl⟩ | ⟨name, _, rfl⟩
  · exact hOwn input h
  · simp
  · simp
  · simp

/-- The names of inputs have no line break if those of variables and properties have none. -/
theorem name_programInputs (hPassed : ∀ name ∈ passed, '\n' ∉ name.toList)
    (hRead : ∀ name ∈ read, '\n' ∉ name.toList) (hHeld : ∀ name ∈ held, '\n' ∉ name.toList)
    {input : Input} (hInput : input ∈ programInputs passed read held textured stage hit) :
    '\n' ∉ input.name.toList := by
  have hOwn : ∀ input ∈ ownInputs, '\n' ∉ input.name.toList := by decide
  rcases mem_programInputs hInput
    with h | ⟨name, hName, rfl⟩ | ⟨name, hName, rfl⟩ | ⟨name, hName, rfl⟩
  · exact hOwn input h
  · simp [hHeld name hName]
  · exact hRead name hName
  · exact hPassed name hName

namespace Compiled.Declares

open Shader.InputKind (keyword mark)

variable {compiled : Compiled} (h : compiled.Declares passed read held textured)

include h

/-- Uniforms are declared for the variables and for the texture. -/
theorem uniformLines_eq : compiled.builder.uniformLines =
    (held.map fun name => Input.line ⟨.uniform, "float", "var_" ++ name⟩) ++
      if textured then [Input.line ⟨.uniform, "sampler2D", "texture"⟩] else [] := by
  rw [Shader.Builder.uniformLines, h.uniforms, List.map_append, List.map_map]
  refine congrArg₂ (· ++ ·) ?_ ?_
  · refine List.map_congr_left fun name _ => String.toList_injective ?_
    simp [Input.line, Input.fullName, keyword, mark]
  · rw [apply_ite (List.map _)]
    exact if_congr Iff.rfl (by decide) rfl

/-- Attributes are declared for the properties that are read. -/
theorem attributeLines_eq : compiled.builder.attributeLines =
    read.map fun name => Input.line ⟨.attribute, "float", name⟩ := by
  rw [Shader.Builder.attributeLines, h.attributes, List.map_map]
  refine List.map_congr_left fun name _ => String.toList_injective ?_
  simp [Input.line, Input.fullName, keyword, mark]

/-- Varyings are declared for the properties that are passed on. -/
theorem varyingLines_eq : compiled.builder.varyingLines =
    passed.map fun name => Input.line ⟨.varying, "float", name⟩ := by
  rw [Shader.Builder.varyingLines, h.varyings, List.map_map]
  refine List.map_congr_left fun name _ => String.toList_injective ?_
  simp [Input.line, Input.fullName, keyword, mark, Shader.Varying.declaration,
    Shader.VaryingType.name]

/-- The header of a program declares its inputs after the line for the precision. -/
theorem headerLines_eq (hFunctions : compiled.builder.functions = []) (stage : Stage) (hit : Bool) :
    compiled.builder.headerLines stage hit =
      Shader.precision :: (programInputs passed read held textured stage hit).map Input.line := by
  have hView : Shader.viewUniforms =
      ["time", "zoom", "resolution"].map (Input.line ⟨.uniform, "float", ·⟩) := by decide
  have hMatrices : Shader.vertexUniforms =
      ["projectionMatrix", "offsetScaleMatrix", "offsetRotateMatrix"].map
        (Input.line ⟨.uniform, "mat4", ·⟩) ++ Shader.viewUniforms := by decide
  have hCorner : Shader.vertexAttributes = [Input.line ⟨.attribute, "vec2", "position"⟩,
      Input.line ⟨.attribute, "float", "index"⟩] := by decide
  have hQuad : Shader.quadVaryings =
      ["texCoord", "quadCoord"].map (Input.line ⟨.varying, "vec2", ·⟩) := by decide
  have hHitAttribute : onlyFor hit [Shader.hitAttribute] =
      (onlyFor hit ["hitColor"]).map (Input.line ⟨.attribute, "vec4", ·⟩) := by cases hit <;> decide
  have hHitVarying : onlyFor hit [Shader.hitVarying] =
      (onlyFor hit ["hitColor"]).map (Input.line ⟨.varying, "vec4", ·⟩) := by cases hit <;> decide
  cases stage <;>
    simp [Shader.Builder.headerLines, h.uniformLines_eq, h.attributeLines_eq, h.varyingLines_eq,
      hFunctions, hView, hMatrices, hCorner, hQuad, hHitAttribute, hHitVarying, programInputs,
      uniformInputs, attributeInputs, varyingInputs, Function.comp_def, apply_ite (List.map _)]

end Compiled.Declares

end Inputs

section Assembly

variable {compiler : Compiler} {pool : Texture.Pool} {style : Style} {compiled : Compiled}
  (a : Assembly compiler pool style compiled)

include a in
theorem Assembly.functions_eq : compiled.builder.functions = [] := by
  have hVertex : a.session.vertex.functions = [] := (a.reflects.scopes .vertex).functions_eq
  have hFragment : a.session.fragment.functions = [] := (a.reflects.scopes .fragment).functions_eq
  rw [a.builder_eq, functions_program, Session.functions, hVertex, hFragment]
  rfl

/-- The properties that are passed on are those that the fragment program names. -/
theorem Assembly.passed_iff (name : String) : name ∈ a.session.fragment.attributes ↔
    Expression.Names "get" name (style.fragmentSources a.shape) := by
  rw [← fragmentSources_eq a.shape style a.texts a.maskSize]
  exact (a.reflects.scopes .fragment).attributes name

/-- The properties that are read are those that either program names. -/
theorem Assembly.read_iff (name : String) : name ∈ a.session.attributes ↔
    Expression.Names "get" name (style.vertexSources ++ style.fragmentSources a.shape) := by
  rw [Expression.names_append, ← a.passed_iff, ← vertexSources_eq a.shape style a.texts a.maskSize,
    ← (a.reflects.scopes .vertex).attributes]
  exact Scope.mem_mentionAll

/-- The variables that are held are those that either program names. -/
theorem Assembly.held_iff (name : String) : name ∈ a.session.variableNames ↔
    Expression.Names "var" name (style.vertexSources ++ style.fragmentSources a.shape) := by
  rw [Expression.names_append, ← vertexSources_eq a.shape style a.texts a.maskSize,
    ← fragmentSources_eq a.shape style a.texts a.maskSize,
    ← (a.reflects.scopes .vertex).variableNames, ← (a.reflects.scopes .fragment).variableNames]
  exact Scope.mem_mentionAll

end Assembly

/-- The inputs of a program have distinct names just in case no property of the features has the
name of a built-in input: in the vertex program no property that either program reads is named like
an attribute, and in both programs none that the fragment program reads is named like a varying. The
names are those in the text of the program, unless one of them breaks its line. -/
theorem declared_names_nodup_iff {compiler : Compiler} {pool : Texture.Pool} {style : Style}
    {compiled : Compiled} (hRegistry : compiler.registry = .builtin)
    (hCompile : (compiler.compile pool style).result = .ok compiled) (stage : Stage) (hit : Bool) :
    ∃ shape sources, shape.Named style.symbol.symbolType ∧
      sources = style.vertexSources ++ style.fragmentSources shape ∧
      ((declaredNames (compiled.builder.headerLines stage hit)).Nodup ↔
        (stage = .vertex → ∀ name ∈ reservedAttributes hit, ¬ Expression.Names "get" name sources) ∧
          ∀ name ∈ reservedVaryings hit,
            ¬ Expression.Names "get" name (style.fragmentSources shape)) ∧
      ((∀ name, Expression.Names "get" name sources ∨ Expression.Names "var" name sources →
          '\n' ∉ name.toList) →
        header (compiled.builder.program stage hit) = compiled.builder.headerLines stage hit) := by
  obtain ⟨a⟩ := compile_ok hRegistry hCompile
  have hPassed : a.session.fragment.attributes.Nodup :=
    (a.reflects.scopes .fragment).attributes_nodup
  have hRead : a.session.attributes.Nodup :=
    Scope.nodup_mentionAll _ (a.reflects.scopes .vertex).attributes_nodup
  have hHeld : a.session.variableNames.Nodup :=
    Scope.nodup_mentionAll _ (a.reflects.scopes .vertex).variableNames_nodup
  have hHeader := (a.declares hHeld).headerLines_eq a.functions_eq stage hit
  refine ⟨a.shape, _, a.named, rfl, ?_, fun hBreaks => ?_⟩
  · rw [Shader.declaredNames_headerLines hHeader fun _ hInput => (type_programInputs hInput).1,
      nodup_programInputs hPassed hRead hHeld]
    simp only [a.read_iff, a.passed_iff]
  · refine Shader.header_program_of_inputs hHeader (fun _ => type_programInputs) fun _ => ?_
    refine name_programInputs (fun name hName => ?_) (fun name hName => ?_) fun name hName => ?_
    · refine hBreaks name (.inl (Expression.names_append.mpr (.inr ?_)))
      exact (a.passed_iff name).mp hName
    · exact hBreaks name (.inl ((a.read_iff name).mp hName))
    · exact hBreaks name (.inr ((a.held_iff name).mp hName))

theorem declared_names_nodup_iff_sampleCircle :
    ∃ compiled,
      ((Compiler.standard (Resource.Memory.provider [])).compile .empty sampleCircle).result =
        .ok compiled ∧
      ∀ stage hit, (declaredNames (header (compiled.builder.program stage hit))).Nodup := by
  have hCompile : ∃ compiled,
      ((Compiler.standard (Resource.Memory.provider [])).compile .empty sampleCircle).result =
        .ok compiled := ⟨_, rfl⟩
  obtain ⟨compiled, hOk⟩ := hCompile
  refine ⟨compiled, hOk, fun stage hit => ?_⟩
  obtain ⟨shape, sources, hShape, rfl, hNodup, hText⟩ := declared_names_nodup_iff rfl hOk stage hit
  cases Shape.ofName?_eq_some_iff.mpr hShape
  have hGet : ∀ name, Expression.Names "get" name (sampleCircle.vertexSources ++
      sampleCircle.fragmentSources .circle) → name ∈ ["width", "heat", "kind"] := by
    simp [Expression.Names, Expression.parts, Expression.partsAll, vertexSources, fragmentSources,
      sampleCircle, Symbol.ofType]
  have hVar : ∀ name, Expression.Names "var" name (sampleCircle.vertexSources ++
      sampleCircle.fragmentSources .circle) → name = "shade" := by
    simp [Expression.Names, Expression.parts, Expression.partsAll, vertexSources, fragmentSources,
      sampleCircle, Symbol.ofType]
  have hReserved : ∀ name ∈ reservedAttributes hit ++ reservedVaryings hit,
      name ∉ ["width", "heat", "kind"] := by cases hit <;> decide
  rw [hText, hNodup]
  · refine ⟨fun _ name hName hNamed => ?_, fun name hName hNamed => ?_⟩
    · exact hReserved name (List.mem_append_left _ hName) (hGet name hNamed)
    · exact hReserved name (List.mem_append_right _ hName)
        (hGet name (Expression.names_append.mpr (.inr hNamed)))
  · rintro name (hNamed | hNamed)
    · have hNames : ∀ name ∈ ["width", "heat", "kind"], '\n' ∉ name.toList := by decide
      exact hNames name (hGet name hNamed)
    · rw [hVar name hNamed]
      decide

/-- A square whose size is the property `position`. -/
def samplePositionSize : Style where
  filter := none
  variableValues := []
  symbol := { Symbol.ofType "square" with size := some (.call "get" [.string "position"]) }

/-- A property named like a built-in attribute is declared beside it. -/
theorem declared_twice_position :
    ∃ compiled,
      ((Compiler.standard (Resource.Memory.provider [])).compile .empty samplePositionSize).result =
        .ok compiled ∧
      ¬ (declaredNames (header (compiled.builder.program .vertex false))).Nodup := by
  have hCompile : ∃ compiled,
      ((Compiler.standard (Resource.Memory.provider [])).compile .empty samplePositionSize).result =
        .ok compiled ∧
      compiled.builder.headerLines .vertex false = [Shader.precision] ++ Shader.vertexUniforms ++
        Shader.vertexAttributes ++ ["attribute float a_position;"] ++ Shader.quadVaryings :=
    ⟨_, rfl, by decide +kernel⟩
  obtain ⟨compiled, hOk, hHeader⟩ := hCompile
  refine ⟨compiled, hOk, ?_⟩
  rw [Shader.header_program (by rw [hHeader]; decide) (by rw [hHeader]; decide), hHeader]
  decide

end Style

end PointStyle
