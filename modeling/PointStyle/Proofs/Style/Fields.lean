import PointStyle.Proofs.Session
import PointStyle.Proofs.Style.Sources

/-! The fields of a style, each on its own. All of them are lowered in one session, which grows from
field to field, but how a lowering ends is settled by the expression and the types asked for. So a
style fails as the first of its fields does that fails alone, and the size, once lowered, can be
lowered again for the mask. -/
namespace PointStyle

open Lowering

theorem findSome?_cons_eq_or {α β : Type} (f : α → Option β) (a : α) (rest : List α) :
    (a :: rest).findSome? f = (f a).or (rest.findSome? f) := by
  cases hValue : f a <;> simp [hValue]

namespace Session

/-- The script of an expression says how its lowering ends, in either program of any session. -/
theorem fault?_run_lower (words : Vocabulary) (session : Session) (stage : Stage) (e : Expression)
    (hint : Option TypeSet) :
    fault? (session.run stage (words.registry.lower e hint)).1 =
      fault? (words.script e hint).outcome := by
  rw [run_eq, words.lower_eq, Script.finish]
  cases (words.script e hint).outcome <;> rfl

/-- However the session, the action fails with the error, or it succeeds if there is none. -/
structure Ends {α : Type} (action : EStateM ExpressionError Session α)
    (fault : Option ExpressionError) : Prop where
  ok : fault = none → ∀ session, ∃ a next, action session = .ok a next
  error : ∀ error, fault = some error → ∀ session, ∃ next, action session = .error error next

section Ends

variable {α β : Type} {action : EStateM ExpressionError Session α}
  {next : α → EStateM ExpressionError Session β} {first second : Option ExpressionError}

theorem ends_pure (a : α) : Ends (pure a) none :=
  ⟨fun _ session => ⟨a, session, rfl⟩, nofun⟩

theorem ends_modify (f : Session → Session) : Ends (modify f) none :=
  ⟨fun _ session => ⟨(), f session, rfl⟩, nofun⟩

theorem Ends.of_eq (h : Ends action first) (hEq : first = second) : Ends action second :=
  hEq ▸ h

/-- What comes second only counts if the first succeeds. -/
theorem Ends.bind (hFirst : Ends action first) (hNext : ∀ a, Ends (next a) second) :
    Ends (action >>= next) (first.or second) := by
  have hOk : ∀ {session middle : Session} {a : α}, action session = .ok a middle →
      (action >>= next) session = next a middle := by
    intro session middle a hAction
    show EStateM.bind action next session = _
    rw [EStateM.bind, hAction]
  cases first with
  | some error =>
      refine ⟨nofun, fun other hOther session => ?_⟩
      obtain ⟨middle, hAction⟩ := hFirst.error error rfl session
      refine ⟨middle, ?_⟩
      show EStateM.bind action next session = _
      rw [EStateM.bind, hAction, Option.some.inj hOther]
  | none =>
      refine ⟨fun hNone session => ?_, fun error hError session => ?_⟩
      · obtain ⟨a, middle, hAction⟩ := hFirst.ok rfl session
        rw [hOk hAction]
        exact (hNext a).ok hNone middle
      · obtain ⟨a, middle, hAction⟩ := hFirst.ok rfl session
        rw [hOk hAction]
        exact (hNext a).error error hError middle

end Ends

section Lower

variable (words : Vocabulary) (stage : Stage) (e : Expression) (types : TypeSet)

/-- Lowering an expression ends as its script does, with the types as the hint. -/
theorem ends_lower :
    Ends (lower words.registry stage e types) (fault? (words.script e (some types)).outcome) := by
  have hEnd : ∀ session : Session, lower words.registry stage e types session =
      match (session.run stage (words.registry.lower e (some types))).1 with
      | .ok text => .ok text (session.run stage (words.registry.lower e (some types))).2
      | .error error =>
          .error error (session.run stage (words.registry.lower e (some types))).2 := by
    intro session
    unfold lower
    obtain ⟨result, next⟩ := session.run stage (words.registry.lower e (some types))
    cases result <;> rfl
  refine ⟨fun hNone session => ?_, fun error hError session => ?_⟩
  · rw [← session.fault?_run_lower words stage, fault?_eq_none_iff] at hNone
    obtain ⟨text, hText⟩ := hNone
    exact ⟨text, _, by rw [hEnd, hText]⟩
  · rw [← session.fault?_run_lower words stage, fault?_eq_some_iff] at hError
    exact ⟨_, by rw [hEnd, hError]⟩

/-- The report of a field's text does not change how lowering it ends. -/
theorem ends_lowerField (field : String) :
    Ends (lowerField words.registry stage field e types)
      (fault? (words.script e (some types)).outcome) := by
  refine Ends.of_eq (Ends.bind (ends_lower words stage e types) fun text => ?_) Option.or_none
  exact (ends_modify _).bind fun _ => ends_pure text

end Lower

end Session

namespace Style

open Session (Ends)

/-- What becomes of a field that is lowered alone, with nothing referred to and no string seen. -/
def Field.alone (registry : Registry) (field : Field) : Except ExpressionError String :=
  (Session.fresh.run field.stage (registry.lower field.source (some field.types))).1

/-- A field on its own fails as its script does. -/
theorem Field.fault?_alone (words : Vocabulary) (field : Field) :
    fault? (field.alone words.registry) =
      fault? (words.script field.source (some field.types)).outcome :=
  Session.fault?_run_lower ..

section Texts

variable (words : Vocabulary) (shape : Shape) (style : Style)

/-- The mask fails only as the size does. -/
theorem ends_lowerMask (size : Expression) :
    Ends (lowerMask words.registry shape size)
      (if shape.needsVisibleSize then fault? (words.script size (some sizeTypes)).outcome
        else none) := by
  unfold lowerMask
  split
  · exact ((Session.ends_lower words .fragment size sizeTypes).bind fun _ =>
      Session.ends_pure _).of_eq Option.or_none
  · exact Session.ends_pure _

/-- A filter ends as its script does, and fails in no way if there is none. -/
theorem ends_lowerFilter :
    Ends (style.lowerFilter words.registry)
      (style.filter.bind fun filter => fault? (words.script filter (some .boolean)).outcome) := by
  unfold lowerFilter
  cases style.filter with
  | none => exact Session.ends_pure _
  | some filter =>
      exact ((Session.ends_lowerField words .fragment filter .boolean "filter").bind fun text =>
        Session.ends_pure (some text)).of_eq Option.or_none

/-- Lowering all fields in one session ends as the first of them does that fails alone. -/
theorem ends_lowerTexts :
    Ends (style.lowerTexts words.registry shape)
      (style.fields.findSome? fun field => fault? (field.alone words.registry)) := by
  have hTexts : Ends (style.lowerTexts words.registry shape) _ :=
    (Session.ends_lowerField words ..).bind fun _ =>
    (Session.ends_lowerField words ..).bind fun _ =>
    (Session.ends_lowerField words ..).bind fun _ =>
    (Session.ends_lowerField words ..).bind fun _ =>
    (Session.ends_lowerField words ..).bind fun _ =>
    (Session.ends_lowerField words ..).bind fun _ =>
    (ends_lowerMask words shape _).bind fun _ =>
    (ends_lowerFilter words style).bind fun _ => Session.ends_pure _
  refine hTexts.of_eq ?_
  simp only [fields, Symbol.fields_eq, Field.fault?_alone, List.cons_append, List.nil_append,
    findSome?_cons_eq_or]
  -- A size that fails has done so before the mask is reached.
  cases fault? (words.script style.symbol.sizeOrDefault (some sizeTypes)).outcome with
  | some error => rfl
  | none => cases style.filter <;> simp

end Texts

section Compile

variable (words : Vocabulary) {compiler : Compiler} (hRegistry : compiler.registry = words.registry)
  (pool : Texture.Pool) {style : Style} {shape : Shape}

include hRegistry

/-- A style of a known shape none of whose fields fails is compiled. -/
theorem compile_of_no_fault (hShape : shape.Named style.symbol.symbolType)
    (hFault : style.fields.findSome? (fun field => fault? (field.alone words.registry)) = none) :
    ∃ compiled, (compiler.compile pool style).result = .ok compiled := by
  obtain ⟨texts, session, hTexts⟩ := (ends_lowerTexts words shape style).ok hFault
    (Session.fresh.report ⟨.debug, "Compiling " ++ shape.name ++ " symbol style"⟩)
  simp only [Compiler.compile, Shape.ofName?_eq_some_iff.mpr hShape, hRegistry, hTexts]
  exact ⟨_, rfl⟩

/-- A style of a known shape fails with the error of its first field that fails. -/
theorem compile_of_fault (hShape : shape.Named style.symbol.symbolType) {error : ExpressionError}
    (hFault : style.fields.findSome? (fun field => fault? (field.alone words.registry)) =
      some error) :
    (compiler.compile pool style).result = .error (.expression error) := by
  obtain ⟨session, hTexts⟩ := (ends_lowerTexts words shape style).error error hFault
    (Session.fresh.report ⟨.debug, "Compiling " ++ shape.name ++ " symbol style"⟩)
  simp only [Compiler.compile, Shape.ofName?_eq_some_iff.mpr hShape, hRegistry, hTexts]

omit hRegistry in
/-- A shape that has none of the four names is turned down before any field is looked at. -/
theorem compile_of_unknown
    (hShape : style.symbol.symbolType ∉ ["square", "circle", "triangle", "image"]) :
    (compiler.compile pool style).result =
      .error (.unknownSymbolType style.symbol.symbolType) := by
  rw [Compiler.compile, Shape.ofName?_eq_none_iff.mpr hShape]

/-- A style compiles exactly when its shape is known and each of its fields can be lowered alone. -/
theorem compile_ok_iff :
    (∃ compiled, (compiler.compile pool style).result = .ok compiled) ↔
      style.symbol.symbolType ∈ ["square", "circle", "triangle", "image"] ∧
        ∀ field ∈ style.fields, ∃ text, field.alone words.registry = .ok text := by
  constructor
  · rintro ⟨compiled, hCompiled⟩
    by_cases hKnown : style.symbol.symbolType ∈ ["square", "circle", "triangle", "image"]
    · obtain ⟨shape, hShape⟩ := Shape.exists_named_iff.mpr hKnown
      refine ⟨hKnown, fun field hField => ?_⟩
      cases hFault : style.fields.findSome? (fun field => fault? (field.alone words.registry)) with
      | some error =>
          rw [compile_of_fault words hRegistry pool hShape hFault] at hCompiled
          cases hCompiled
      | none => exact fault?_eq_none_iff.mp (List.findSome?_eq_none_iff.mp hFault field hField)
    · rw [compile_of_unknown pool hKnown] at hCompiled
      cases hCompiled
  · rintro ⟨hKnown, hAlone⟩
    obtain ⟨shape, hShape⟩ := Shape.exists_named_iff.mpr hKnown
    refine compile_of_no_fault words hRegistry pool hShape (List.findSome?_eq_none_iff.mpr ?_)
    exact fun field hField => fault?_eq_none_iff.mpr (hAlone field hField)

end Compile

/-- A size that was lowered once can be lowered again for the mask, in whatever session. -/
theorem lowerMask_of_lower (words : Vocabulary) {size : Expression} {session next : Session}
    {text : String}
    (hSize : Session.lower words.registry .vertex size sizeTypes session = .ok text next)
    (shape : Shape) (later : Session) :
    ∃ mask final, lowerMask words.registry shape size later = .ok mask final := by
  refine (ends_lowerMask words shape size).ok ?_ later
  cases hFault : fault? (words.script size (some sizeTypes)).outcome with
  | none => simp
  | some error =>
      obtain ⟨_, hError⟩ :=
        (Session.ends_lower words .vertex size sizeTypes).error error hFault session
      rw [hError] at hSize
      cases hSize

/-- A style fails exactly when its shape is unknown or one of its fields fails alone, and then it
fails with that error, where the shape comes before the fields and the fields come in order. What
has been recorded and coded before plays no part, so a size that was lowered once never fails again
for the mask. -/
theorem compile_fails_as_first_field (words : Vocabulary) {compiler : Compiler}
    (hRegistry : compiler.registry = words.registry) (pool : Texture.Pool) (style : Style) :
    ((∃ compiled, (compiler.compile pool style).result = .ok compiled) ↔
      style.symbol.symbolType ∈ ["square", "circle", "triangle", "image"] ∧
        ∀ field ∈ style.fields, ∃ text, field.alone words.registry = .ok text) ∧
    (style.symbol.symbolType ∉ ["square", "circle", "triangle", "image"] →
      (compiler.compile pool style).result =
        .error (.unknownSymbolType style.symbol.symbolType)) ∧
    (∀ before field after error,
      style.symbol.symbolType ∈ ["square", "circle", "triangle", "image"] →
      style.fields = before ++ field :: after →
      (∀ earlier ∈ before, ∃ text, earlier.alone words.registry = .ok text) →
      field.alone words.registry = .error error →
      (compiler.compile pool style).result = .error (.expression error)) ∧
    ∀ shape session text next later,
      Session.lower words.registry .vertex (style.symbol.size.getD (.number 1))
        (.numberArray ||| .number) session = .ok text next →
      ∃ mask final, lowerMask words.registry shape (style.symbol.size.getD (.number 1)) later =
        .ok mask final := by
  refine ⟨compile_ok_iff words hRegistry pool, compile_of_unknown pool, ?_, ?_⟩
  · intro before field after error hKnown hFields hBefore hError
    obtain ⟨shape, hShape⟩ := Shape.exists_named_iff.mpr hKnown
    refine compile_of_fault words hRegistry pool hShape ?_
    rw [hFields]
    refine List.findSome?_eq_some_iff.mpr ⟨before, field, after, rfl, ?_,
      fun earlier hEarlier => ?_⟩
    · rw [hError]
      rfl
    · exact fault?_eq_none_iff.mpr (hBefore earlier hEarlier)
  · exact fun shape _ _ _ later hSize => lowerMask_of_lower words hSize shape later

/-- A circle whose rotation and filter are both at fault. -/
def sampleFaulty : Style where
  filter := some (.string "road")
  variableValues := []
  symbol := { Symbol.ofType "circle" with
    size := some (.call "get" [.string "width"])
    rotation := some (.call "+" [.string "width", .number 1]) }

/-- The same symbol with a shape that there is not. -/
def sampleStar : Style :=
  { sampleFaulty with symbol := { sampleFaulty.symbol with symbolType := "star" } }

theorem compile_fails_as_first_field_sampleFaulty :
    ((Compiler.standard (Resource.Memory.provider [])).compile .empty sampleFaulty).result =
      .error (.expression (.expectedNumber (.string "width"))) ∧
    ((Compiler.standard (Resource.Memory.provider [])).compile .empty sampleStar).result =
      .error (.unknownSymbolType "star") := by
  have hRegistry : (Compiler.standard (Resource.Memory.provider [])).registry =
      Vocabulary.standard.registry := rfl
  obtain ⟨_, _, hFirst, _⟩ := compile_fails_as_first_field _ hRegistry .empty sampleFaulty
  obtain ⟨_, hUnknown, _⟩ := compile_fails_as_first_field _ hRegistry .empty sampleStar
  refine ⟨?_, hUnknown (by decide)⟩
  refine hFirst (sampleFaulty.fields.take 3) _ (sampleFaulty.fields.drop 4) _ (by decide) rfl ?_ rfl
  intro earlier hEarlier
  simp [sampleFaulty, fields, Symbol.fields] at hEarlier
  rcases hEarlier with rfl | rfl | rfl <;> exact ⟨_, rfl⟩

end Style

end PointStyle
