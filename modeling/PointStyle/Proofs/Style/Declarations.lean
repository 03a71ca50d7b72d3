import PointStyle.Proofs.Style.Program
import PointStyle.Proofs.Table

/-! What a compiled style declares. Its programs declare each input that the expressions name once,
whatever its name, and the style binds just what they declare. -/
namespace PointStyle

namespace Style

/-- There is a handle just in case a texture is asked for. -/
theorem isSome_bindTexture (compiler : Compiler) (pool : Texture.Pool)
    (request : Option TextureRequest) :
    (compiler.bindTexture pool request).1.isSome = request.isSome := by
  cases request <;> rfl

/-- Different variables are held by different uniforms. -/
theorem uniformName_inj {name other : String} (h : Glsl.uniformName name = Glsl.uniformName other) :
    name = other := by
  have hList := congrArg String.toList h
  rw [Glsl.uniformName, Glsl.uniformName, String.toList_append, String.toList_append] at hList
  exact String.toList_injective (List.append_cancel_left hList)

/-- No variable is held by the uniform of the texture. -/
theorem uniformName_ne_textureUniform (name : String) : Glsl.uniformName name ≠ textureUniform := by
  intro h
  have hList := congrArg String.toList h
  rw [Glsl.uniformName, String.toList_append] at hList
  have hThird := congrArg (·[2]?) hList
  exact absurd hThird (by simp [textureUniform])

/-- The programs pass on, read and hold just the named inputs, each once, and the style binds what
they declare. -/
structure Compiled.Declares (compiled : Compiled) (passed read held : List String) (textured : Prop)
    [Decidable textured] : Prop where
  varyings : compiled.builder.varyings = passed.map fun name => ⟨"v_" ++ name, .float, "a_" ++ name⟩
  attributes : compiled.builder.attributes = read.map ("float a_" ++ ·)
  supplied : compiled.attributes = read
  uniforms : compiled.builder.uniforms =
    held.map ("float u_var_" ++ ·) ++ if textured then ["sampler2D u_texture"] else []
  bound : compiled.uniforms.names.Perm
    (held.map ("u_var_" ++ ·) ++ if textured then ["u_texture"] else [])
  bound_nodup : compiled.uniforms.names.Nodup
  values : ∀ name ∈ held, compiled.uniforms.get? ("u_var_" ++ name) = some (.number name)
  texture : textured → ∃ handle, compiled.uniforms.get? "u_texture" = some (.texture handle)

section Bindings

variable {session : Session} {handle : Option Texture.Handle}

/-- The uniforms that a session and perhaps a texture are bound to. -/
def boundUniforms (session : Session) (handle : Option Texture.Handle) : Table Uniform :=
  handle.elim session.uniformBindings fun handle =>
    session.uniformBindings.insert textureUniform (.texture handle)

/-- The bindings of uniforms are in order. -/
theorem isOrdered_boundUniforms (session : Session) (handle : Option Texture.Handle) :
    (boundUniforms session handle).IsOrdered := by
  cases handle with
  | none => exact Table.isOrdered_ofEntries
  | some handle => exact Table.isOrdered_ofEntries.insert _ _

/-- Uniforms are bound for the variables, and for the texture if there is one. -/
theorem mem_names_boundUniforms {key : String} :
    key ∈ (boundUniforms session handle).names ↔
      key ∈ session.variableNames.map Glsl.uniformName ++
        (handle.map fun _ => textureUniform).toList := by
  have hNames : key ∈ session.uniformBindings.names ↔
      key ∈ session.variableNames.map Glsl.uniformName := by
    rw [Session.uniformBindings, Table.mem_names_ofEntries, List.map_map]
    rfl
  cases handle with
  | none => rw [Option.map_none, Option.toList_none, List.append_nil, ← hNames]; rfl
  | some handle =>
      rw [boundUniforms, Option.elim_some, Table.mem_names_insert, hNames, Option.map_some,
        Option.toList_some, List.mem_append, List.mem_singleton, or_comm]

/-- The names of these uniforms are distinct. -/
theorem nodup_uniformNames (hNodup : session.variableNames.Nodup) :
    (session.variableNames.map Glsl.uniformName ++
      (handle.map fun _ => textureUniform).toList).Nodup := by
  refine List.nodup_append.mpr ⟨?_, ?_, ?_⟩
  · exact List.Pairwise.map _ (fun _ _ hNe hEq => hNe (uniformName_inj hEq)) hNodup
  · cases handle with
    | none => exact List.nodup_nil
    | some _ => exact List.pairwise_singleton _ _
  · intro key hKey other hOther hEq
    obtain ⟨name, _, rfl⟩ := List.mem_map.mp hKey
    cases handle with
    | none => cases hOther
    | some _ => exact uniformName_ne_textureUniform name (hEq.trans (List.mem_singleton.mp hOther))

/-- The uniform of a variable is bound to that variable. -/
theorem get?_boundUniforms {name : String} (hName : name ∈ session.variableNames) :
    (boundUniforms session handle).get? (Glsl.uniformName name) = some (.number name) := by
  have hBinding : session.uniformBindings.get? (Glsl.uniformName name) = some (.number name) := by
    refine Table.get?_ofEntries (fun other hOther => ?_) (List.mem_map_of_mem hName)
    obtain ⟨same, _, hEq⟩ := List.mem_map.mp hOther
    obtain ⟨hKey, rfl⟩ := Prod.mk.inj hEq
    rw [uniformName_inj hKey]
  cases handle with
  | none => exact hBinding
  | some handle =>
      exact (Table.get?_insert_of_ne _ _ (uniformName_ne_textureUniform name)).trans hBinding

theorem get?_boundUniforms_texture (h : handle.isSome) :
    ∃ bound, (boundUniforms session handle).get? textureUniform = some (.texture bound) := by
  obtain ⟨bound, rfl⟩ := Option.isSome_iff_exists.mp h
  exact ⟨bound, Table.get?_insert_self _ _ _⟩

theorem toList_map_const {α : Type} {option : Option α} {present : Prop} [Decidable present]
    (h : option.isSome ↔ present) (text : String) :
    (option.map fun _ => text).toList = if present then [text] else [] := by
  rw [← if_congr h rfl rfl]
  cases option <;> rfl

/-- The uniforms that are bound are those of the variables and perhaps that of the texture. -/
theorem perm_names_boundUniforms {textured : Prop} [Decidable textured]
    (hTextured : handle.isSome ↔ textured) (hNodup : session.variableNames.Nodup) :
    (boundUniforms session handle).names.Perm
      (session.variableNames.map Glsl.uniformName ++
        if textured then [textureUniform] else []) := by
  rw [← toList_map_const hTextured]
  have hOrdered := isOrdered_boundUniforms session handle
  exact (List.perm_ext_iff_of_nodup hOrdered.nodup (nodup_uniformNames hNodup)).mpr fun _ =>
    mem_names_boundUniforms

end Bindings

section Declarations

variable {compiler : Compiler} {pool : Texture.Pool} {style : Style} {compiled : Compiled}

/-- The uniforms of a compiled style are those of its variables and of its texture. -/
theorem Assembly.uniforms_eq_boundUniforms (a : Assembly compiler pool style compiled) :
    ∃ handle, (handle.isSome ↔ a.shape = .image ∧ style.symbol.src.isSome) ∧
      compiled.uniforms = boundUniforms a.session handle := by
  refine ⟨_, ?_, a.uniforms_eq⟩
  rw [isSome_bindTexture]
  exact isSome_textureRequest ..

/-- A compiled style declares just the inputs that its programs refer to. -/
theorem Assembly.declares (a : Assembly compiler pool style compiled)
    (hHeld : a.session.variableNames.Nodup) :
    compiled.Declares a.session.fragment.attributes a.session.attributes a.session.variableNames
      (a.shape = .image ∧ style.symbol.src.isSome) := by
  obtain ⟨handle, hTextured, hUniforms⟩ := a.uniforms_eq_boundUniforms
  refine ⟨?_, ?_, a.attributes_eq, ?_, ?_, ?_, fun name hName => ?_, fun hImage => ?_⟩
  · rw [a.builder_eq, varyings_program]
    rfl
  · rw [a.builder_eq, attributes_program]
    refine List.map_congr_left fun name _ => ?_
    rw [show "float a_" = "float " ++ "a_" by decide, String.append_assoc]
    rfl
  · rw [a.builder_eq, uniforms_program, toList_map_const (isSome_textureRequest ..)]
    refine congrArg (· ++ _) (List.map_congr_left fun name _ => ?_)
    rw [show "float u_var_" = "float " ++ "u_var_" by decide, String.append_assoc]
    rfl
  · rw [hUniforms]
    exact perm_names_boundUniforms hTextured hHeld
  · rw [hUniforms]
    exact (isOrdered_boundUniforms _ _).nodup
  · rw [hUniforms]
    exact get?_boundUniforms hName
  · rw [hUniforms]
    exact get?_boundUniforms_texture (hTextured.mpr hImage)

end Declarations

/-- Every input of the programs of a style is declared once and bound once. The vertex program reads
what either program is to see, the fragment program is passed what it names itself, the variables of
both are held by uniforms, and an image with a source has the one further uniform of its texture. -/
theorem inputs_declared_once {compiler : Compiler} {pool : Texture.Pool} {style : Style}
    {compiled : Compiled} (hRegistry : compiler.registry = .builtin)
    (hCompile : (compiler.compile pool style).result = .ok compiled) :
    ∃ shape passed read held, shape.Named style.symbol.symbolType ∧
      passed.Nodup ∧ read.Nodup ∧ held.Nodup ∧
      (∀ name, name ∈ passed ↔ Expression.Names "get" name (style.fragmentSources shape)) ∧
      (∀ name, name ∈ read ↔
        Expression.Names "get" name (style.vertexSources ++ style.fragmentSources shape)) ∧
      (∀ name, name ∈ held ↔
        Expression.Names "var" name (style.vertexSources ++ style.fragmentSources shape)) ∧
      compiled.Declares passed read held (shape = .image ∧ style.symbol.src.isSome) := by
  obtain ⟨a⟩ := compile_ok hRegistry hCompile
  have hVertex := a.reflects.scopes .vertex
  have hFragment := a.reflects.scopes .fragment
  rw [vertexSources_eq] at hVertex
  rw [fragmentSources_eq] at hFragment
  have hHeld : a.session.variableNames.Nodup := Scope.nodup_mentionAll _ hVertex.variableNames_nodup
  refine ⟨a.shape, a.session.fragment.attributes, a.session.attributes, a.session.variableNames,
    a.named, hFragment.attributes_nodup, Scope.nodup_mentionAll _ hVertex.attributes_nodup,
    hHeld, hFragment.attributes, fun name => ?_, fun name => ?_, a.declares hHeld⟩
  · rw [Expression.names_append, ← hVertex.attributes, ← hFragment.attributes]
    exact Scope.mem_mentionAll
  · rw [Expression.names_append, ← hVertex.variableNames, ← hFragment.variableNames]
    exact Scope.mem_mentionAll

theorem inputs_declared_once_sampleCircle :
    ∃ compiled,
      ((Compiler.standard (Resource.Memory.provider [])).compile .empty sampleCircle).result =
        .ok compiled ∧ compiled.attributes = ["width", "heat", "kind"] ∧
      ∃ shape passed read held, shape.Named "circle" ∧
        passed.Nodup ∧ read.Nodup ∧ held.Nodup ∧
        (∀ name, name ∈ passed ↔ Expression.Names "get" name (sampleCircle.fragmentSources shape)) ∧
        (∀ name, name ∈ read ↔
          Expression.Names "get" name
            (sampleCircle.vertexSources ++ sampleCircle.fragmentSources shape)) ∧
        (∀ name, name ∈ held ↔
          Expression.Names "var" name
            (sampleCircle.vertexSources ++ sampleCircle.fragmentSources shape)) ∧
        compiled.Declares passed read held (shape = .image ∧ sampleCircle.symbol.src.isSome) := by
  have hCompile : ∃ compiled,
      ((Compiler.standard (Resource.Memory.provider [])).compile .empty sampleCircle).result =
        .ok compiled ∧ compiled.attributes = ["width", "heat", "kind"] := ⟨_, rfl, rfl⟩
  obtain ⟨compiled, hOk, hAttributes⟩ := hCompile
  exact ⟨compiled, hOk, hAttributes, inputs_declared_once rfl hOk⟩

end Style

end PointStyle
