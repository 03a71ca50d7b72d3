import PointStyle.Proofs.Style.Program
import PointStyle.Proofs.Table
import PointStyle.Style.Drawing

/-! Drawing a style. Callbacks for features and variables run in any order and between changes of
the variables, and each may be the first to meet a string. All of them use one table, which starts
with the strings of the programs and only grows, so a string is the same number everywhere. -/
namespace PointStyle

open Lowering Glsl

/-- The number of a code is not the one that stands for a missing value. -/
theorem LiteralTable.codeNumber_beq_missingValue (code : UInt32) :
    (codeNumber code == Style.Drawing.missingValue) = false := by
  have hNegative : ∃ m e hm, Style.Drawing.missingValue.toModel.unpack = .finite .negative m e hm :=
    ⟨_, _, _, rfl⟩
  obtain ⟨m, e, hm, hNegative⟩ := hNegative
  exact codeNumber_beq_negative code hNegative

namespace Style

/-- What a style is drawn with: the codes given out, and the values of the variables. Every handle
on the variables, copies included, is a handle on these. -/
structure Scene where
  drawing : Drawing
  variableValues : Variables

namespace Scene

/-- What may happen while a style is drawn. -/
inductive Action where
  | readAttribute (properties : Table Json) (name : String)
  | readVariable (name : String)
  | setVariable (name : String) (value : Json)
  | removeVariable (name : String)

/-- The scene in which a compiled style is first drawn. -/
def start (style : Style) (compiled : Compiled) : Scene :=
  ⟨⟨compiled.literals, []⟩, style.variableValues⟩

/-- The value that a callback turns into a number. -/
def met (scene : Scene) : Action → Option Json
  | .readAttribute properties name => properties.get? name
  | .readVariable name => Table.get? scene.variableValues name
  | .setVariable _ _ | .removeVariable _ => none

def reply (scene : Scene) : Action → Option (Except StyleError Float)
  | .readAttribute properties name => some (.ok (scene.drawing.attributeValue properties name).1)
  | .readVariable name => some (scene.drawing.variableValue scene.variableValues name).1
  | .setVariable _ _ | .removeVariable _ => none

def step (scene : Scene) : Action → Scene
  | .readAttribute properties name =>
    ⟨(scene.drawing.attributeValue properties name).2, scene.variableValues⟩
  | .readVariable name =>
    ⟨(scene.drawing.variableValue scene.variableValues name).2, scene.variableValues⟩
  | .setVariable name value => ⟨scene.drawing, Table.insert scene.variableValues name value⟩
  | .removeVariable name => ⟨scene.drawing, Table.remove scene.variableValues name⟩

def run (scene : Scene) (actions : List Action) : Scene :=
  actions.foldl step scene

theorem run_append (scene : Scene) (first second : List Action) :
    scene.run (first ++ second) = (scene.run first).run second :=
  List.foldl_append

/-- The string that a callback turns into a number. -/
def string? (scene : Scene) (action : Action) : Option String :=
  match scene.met action with
  | some (.string s) => some s
  | _ => none

theorem string?_eq_some {scene : Scene} {action : Action} {s : String} :
    scene.string? action = some s ↔ scene.met action = some (.string s) := by
  unfold string?
  split
  · rename_i other hMet
    rw [hMet]
    simp
  · rename_i hMet
    exact iff_of_false (fun h => by cases h) (hMet s)

/-- The table changes only by the string that a callback meets. -/
theorem literals_step (scene : Scene) (action : Action) :
    (scene.step action).drawing.literals =
      ((scene.string? action).elim scene.drawing.literals fun s =>
        (scene.drawing.literals.codeFor s).2) := by
  unfold string? step met
  cases action with
  | readAttribute properties name =>
      cases hValue : properties.get? name with
      | none => simp [Drawing.attributeValue, hValue]
      | some value => cases value <;> simp [Drawing.attributeValue, hValue, Drawing.number]
  | readVariable name =>
      cases hValue : Table.get? scene.variableValues name with
      | none => simp [Drawing.variableValue, hValue]
      | some value => cases value <;> simp [Drawing.variableValue, hValue, Drawing.number]
  | setVariable _ _ => rfl
  | removeVariable _ => rfl

/-- A callback that meets a string gives back its code. -/
theorem reply_of_met {scene : Scene} {action : Action} {s : String}
    (h : scene.met action = some (.string s)) :
    scene.reply action =
      some (.ok (LiteralTable.codeNumber (scene.drawing.literals.codeFor s).1)) := by
  cases action with
  | readAttribute properties name =>
      rw [reply, Drawing.attributeValue, show properties.get? name = some (.string s) from h]
      rfl
  | readVariable name =>
      rw [reply, Drawing.variableValue,
        show Table.get? scene.variableValues name = some (.string s) from h]
      rfl
  | setVariable _ _ | removeVariable _ => cases h

theorem strings_isPrefix_step (scene : Scene) (action : Action) :
    scene.drawing.literals.strings <+: (scene.step action).drawing.literals.strings := by
  rw [literals_step]
  cases scene.string? action with
  | none => exact List.prefix_refl _
  | some s => exact LiteralTable.strings_isPrefix_codeFor _ s

theorem nodup_step {scene : Scene} (h : scene.drawing.literals.strings.Nodup) (action : Action) :
    (scene.step action).drawing.literals.strings.Nodup := by
  rw [literals_step]
  cases scene.string? action with
  | none => exact h
  | some s =>
      rw [Option.elim_some, LiteralTable.strings_codeFor]
      exact Scope.nodup_mention s h

/-- Strings keep their codes while actions are run. -/
theorem strings_isPrefix_run (scene : Scene) (actions : List Action) :
    scene.drawing.literals.strings <+: (scene.run actions).drawing.literals.strings := by
  induction actions generalizing scene with
  | nil => exact List.prefix_refl _
  | cons action rest ih => exact (strings_isPrefix_step scene action).trans (ih (scene.step action))

/-- No string gets a second code while actions are run. -/
theorem nodup_run {scene : Scene} (h : scene.drawing.literals.strings.Nodup)
    (actions : List Action) : (scene.run actions).drawing.literals.strings.Nodup := by
  induction actions generalizing scene with
  | nil => exact h
  | cons action rest ih => exact ih (nodup_step h action)

/-- At some moment of the run a callback meets the string and gives back the number. -/
def Converts (scene : Scene) (actions : List Action) (s : String) (x : Float) : Prop :=
  ∃ before action after, actions = before ++ action :: after ∧
    (scene.run before).met action = some (.string s) ∧
      (scene.run before).reply action = some (.ok x)

/-- What was given back for a string is its code in the final table. -/
theorem Converts.code {scene : Scene} {actions : List Action} {s : String} {x : Float}
    (h : scene.Converts actions s x) :
    ∃ code, (scene.run actions).drawing.literals.code? s = some code ∧
      x = LiteralTable.codeNumber code := by
  obtain ⟨before, action, after, rfl, hMet, hReply⟩ := h
  rw [reply_of_met hMet] at hReply
  cases hReply
  refine ⟨_, ?_, rfl⟩
  have hStep : ((scene.run before).step action).drawing.literals =
      ((scene.run before).drawing.literals.codeFor s).2 := by
    rw [literals_step, string?_eq_some.mpr hMet, Option.elim_some]
  rw [run_append]
  -- The code was given out during the callback, and the rest of the run leaves it alone.
  have hLater := strings_isPrefix_run ((scene.run before).step action) after
  refine LiteralTable.code?_of_isPrefix hLater ?_
  rw [hStep]
  exact LiteralTable.code?_codeFor _ s

/-- Strings are the same number when they are the same string, whenever they are met. -/
theorem Converts.eq_iff {scene : Scene} {actions : List Action} {s t : String} {x y : Float}
    (hNodup : scene.drawing.literals.strings.Nodup)
    (hSize : (scene.run actions).drawing.literals.size < UInt32.size)
    (hs : scene.Converts actions s x) (ht : scene.Converts actions t y) :
    (x = y ↔ s = t) ∧ ((x == y) = true ↔ s = t) := by
  obtain ⟨code, hCode, rfl⟩ := hs.code
  obtain ⟨other, hOther, rfl⟩ := ht.code
  have hCodes : code = other ↔ s = t := by
    constructor
    · rintro rfl
      rw [LiteralTable.code?_eq_some_iff (nodup_run hNodup actions) hSize] at hCode hOther
      exact Option.some.inj (hCode.symm.trans hOther)
    · rintro rfl
      exact Option.some.inj (hCode.symm.trans hOther)
  exact ⟨LiteralTable.codeNumber_inj.trans hCodes, LiteralTable.codeNumber_beq.trans hCodes⟩

/-- No string is converted to the number of a missing value. -/
theorem Converts.ne_missingValue {scene : Scene} {actions : List Action} {s : String} {x : Float}
    (h : scene.Converts actions s x) :
    x ≠ Drawing.missingValue ∧ (x == Drawing.missingValue) = false := by
  obtain ⟨code, _, rfl⟩ := h.code
  have hMissing := LiteralTable.codeNumber_beq_missingValue code
  refine ⟨fun hEq => ?_, hMissing⟩
  rw [← hEq, LiteralTable.codeNumber_beq.mpr rfl] at hMissing
  cases hMissing

/-- A string that the scene starts with keeps the number that it is written as. -/
theorem Converts.text {scene : Scene} {actions : List Action} {s : String} {x : Float}
    (h : scene.Converts actions s x) (hs : s ∈ scene.drawing.literals.strings) (stage : Stage) :
    Glsl.number x = (Atom.code s).text stage scene.drawing.literals := by
  obtain ⟨code, hCode, rfl⟩ := h.code
  obtain ⟨first, hFirst⟩ := Option.isSome_iff_exists.mp ((LiteralTable.isSome_code? _ s).mpr hs)
  have hLater := LiteralTable.code?_of_isPrefix (strings_isPrefix_run scene actions) hFirst
  rw [hCode] at hLater
  cases hLater
  rw [Atom.text, hFirst, Option.getD_some]

/-- What an action does to a variable: nothing, or it sets its value, or it takes it away. -/
def Action.assigns (name : String) : Action → Option (Option Json)
  | .setVariable other value => if other = name then some (some value) else none
  | .removeVariable other => if other = name then some none else none
  | .readAttribute _ _ | .readVariable _ => none

/-- The value that the last action on a variable has left it with. -/
def lastValue (scene : Scene) (actions : List Action) (name : String) : Option Json :=
  (actions.filterMap (Action.assigns name)).getLast?.getD (Table.get? scene.variableValues name)

/-- A variable has the value that an action assigns, or else the value that it had. -/
theorem get?_step (scene : Scene) (action : Action) (name : String) :
    Table.get? (scene.step action).variableValues name =
      (action.assigns name).getD (Table.get? scene.variableValues name) := by
  cases action with
  | readAttribute _ _ | readVariable _ => rfl
  | setVariable other value =>
      by_cases hName : other = name
      · subst hName
        rw [Action.assigns, if_pos rfl]
        exact Table.get?_insert_self _ _ _
      · rw [Action.assigns, if_neg hName]
        exact Table.get?_insert_of_ne _ _ (Ne.symm hName)
  | removeVariable other =>
      by_cases hName : other = name
      · subst hName
        rw [Action.assigns, if_pos rfl]
        exact Table.get?_remove_self _ _
      · rw [Action.assigns, if_neg hName]
        exact Table.get?_remove_of_ne _ (Ne.symm hName)

/-- The last action on a variable decides its value. -/
theorem get?_run (scene : Scene) (actions : List Action) (name : String) :
    Table.get? (scene.run actions).variableValues name = scene.lastValue actions name := by
  induction actions generalizing scene with
  | nil => rfl
  | cons action rest ih =>
      show Table.get? ((scene.step action).run rest).variableValues name = _
      rw [ih, lastValue, lastValue, get?_step, getLast?_filterMap_cons]

/-- Reading a variable gives its value as a number, or says that it is missing. -/
theorem reply_readVariable (scene : Scene) (name : String) :
    scene.reply (.readVariable name) = some (match Table.get? scene.variableValues name with
      | none => .error (.missingVariable name)
      | some value => .ok (scene.drawing.number ("Variable '" ++ name ++ "'") value).1) := by
  rw [reply, Drawing.variableValue]
  cases Table.get? scene.variableValues name <;> rfl

end Scene

/-- String codes agree between both programs and all callbacks. The expressions of the programs are
made of passages, and a callback that meets a string with a code in one of them gives back the
number that is written there. Over a whole run of callbacks and changes of variables, strings are
equal numbers just when they are the same, none is the number of a missing value, and a variable has
the value that the last action on it has left it with. -/
theorem string_codes_agree {compiler : Compiler} {pool : Texture.Pool} {style : Style}
    {compiled : Compiled} (hRegistry : compiler.registry = .builtin)
    (hCompile : (compiler.compile pool style).result = .ok compiled) (actions : List Scene.Action)
    (hSize : ((Scene.start style compiled).run actions).drawing.literals.size < UInt32.size) :
    (∃ shape texts maskSize, shape.Named style.symbol.symbolType ∧
      (∀ place, compiled.builder.expression place =
        texts.expression (shape = .image ∧ style.symbol.src.isSome) place) ∧
      texts.mask = shape.opacityMask
        (if shape.needsVisibleSize then "vec2(" ++ maskSize ++ ").x" else "") ∧
      ∀ passage ∈ style.passages shape texts maskSize,
        ∃ phrase, passage.IsWritten compiled.literals phrase ∧
        ∀ s x, .code s ∈ phrase.erase.leaves → (Scene.start style compiled).Converts actions s x →
          Glsl.number x = (Atom.code s).text passage.stage compiled.literals) ∧
    (∀ s t x y, (Scene.start style compiled).Converts actions s x →
      (Scene.start style compiled).Converts actions t y →
        (x = y ↔ s = t) ∧ ((x == y) = true ↔ s = t)) ∧
    (∀ s x, (Scene.start style compiled).Converts actions s x →
      x ≠ Drawing.missingValue ∧ (x == Drawing.missingValue) = false) ∧
    (∀ action s, ((Scene.start style compiled).run actions).met action = some (.string s) →
      ∃ x, ((Scene.start style compiled).run actions).reply action = some (.ok x)) ∧
    ∀ name, ((Scene.start style compiled).run actions).reply (.readVariable name) =
      some (match (Scene.start style compiled).lastValue actions name with
        | none => .error (.missingVariable name)
        | some value => .ok (((Scene.start style compiled).run actions).drawing.number
            ("Variable '" ++ name ++ "'") value).1) := by
  obtain ⟨a⟩ := compile_ok hRegistry hCompile
  have hReflects := a.reflects
  have hLiterals := a.literals_eq
  have hNodup : compiled.literals.strings.Nodup := hLiterals ▸ hReflects.strings_nodup
  refine ⟨⟨a.shape, a.texts, a.maskSize, a.named, a.expression_eq, a.mask_eq,
    fun passage hPassage => ?_⟩, fun s t x y => Scene.Converts.eq_iff hNodup hSize,
    fun s x => Scene.Converts.ne_missingValue,
    fun action s hMet => ⟨_, Scene.reply_of_met hMet⟩, fun name => ?_⟩
  · obtain ⟨phrase, hWritten⟩ := hReflects.written passage hPassage
    rw [← hLiterals] at hWritten
    exact ⟨phrase, hWritten, fun s x hs hConverts =>
      hConverts.text (hWritten.strings s hs) passage.stage⟩
  · rw [Scene.reply_readVariable, Scene.get?_run]

/-- A feature with a new string, then a variable that is set to a known one, read and removed. -/
def Scene.sampleActions : List Scene.Action :=
  [.readAttribute [("kind", .string "c")] "kind", .setVariable "shade" (.string "a"),
    .readVariable "shade", .removeVariable "shade"]

theorem string_codes_agree_sampleCircle :
    ∃ compiled,
      ((Compiler.standard (Resource.Memory.provider [])).compile .empty sampleCircle).result =
        .ok compiled ∧
      ((Scene.start sampleCircle compiled).run Scene.sampleActions).drawing.literals.size <
        UInt32.size ∧
      (∃ x y, (Scene.start sampleCircle compiled).Converts Scene.sampleActions "c" x ∧
        (Scene.start sampleCircle compiled).Converts Scene.sampleActions "a" y ∧ x ≠ y ∧
        x ≠ Drawing.missingValue ∧ y ≠ Drawing.missingValue) ∧
      ((Scene.start sampleCircle compiled).run Scene.sampleActions).reply (.readVariable "shade") =
        some (.error (.missingVariable "shade")) := by
  have hCompile : ∃ compiled,
      ((Compiler.standard (Resource.Memory.provider [])).compile .empty sampleCircle).result =
        .ok compiled ∧ compiled.literals = ⟨["b", "a"]⟩ := ⟨_, rfl, rfl⟩
  obtain ⟨compiled, hOk, hLiterals⟩ := hCompile
  have hSize : ((Scene.start sampleCircle compiled).run
      Scene.sampleActions).drawing.literals.size < UInt32.size := by
    rw [Scene.start, hLiterals]
    decide
  have hKind : (Scene.start sampleCircle compiled).Converts Scene.sampleActions "c" _ :=
    ⟨[], _, _, rfl, rfl, Scene.reply_of_met rfl⟩
  have hShade : (Scene.start sampleCircle compiled).Converts Scene.sampleActions "a" _ :=
    ⟨[.readAttribute [("kind", .string "c")] "kind", .setVariable "shade" (.string "a")], _, _,
      rfl, rfl, Scene.reply_of_met rfl⟩
  obtain ⟨_, hEq, hMissing, _, hLast⟩ :=
    string_codes_agree rfl hOk Scene.sampleActions hSize
  refine ⟨compiled, hOk, hSize, ⟨_, _, hKind, hShade, fun h => ?_, (hMissing _ _ hKind).1,
    (hMissing _ _ hShade).1⟩, hLast "shade"⟩
  exact absurd ((hEq _ _ _ _ hKind hShade).1.mp h) (by decide)

end Style

end PointStyle
