import Mathlib.Data.List.Forall2
import PointStyle.Expression.Document
import PointStyle.Proofs.Except
import PointStyle.Proofs.Json.Value

/-! The grammar of expressions in JSON. Reading accepts just the values of the grammar, and the
expression has the shape of the value. Any other value is refused for its first part at fault, where
parts are looked at in reading order and only calls have parts. -/
namespace PointStyle

namespace Expression

/-- The values that are expressions. -/
inductive Accepted : Json → Prop
  | number (n : Json.Number) : Accepted (.number n)
  | bool (b : Bool) : Accepted (.bool b)
  | string (s : String) : Accepted (.string s)
  | numbers (ns : List Json.Number) : Accepted (.array (ns.map .number))
  | call (operator : String) {args : List Json} (hArgs : ∀ arg ∈ args, Accepted arg) :
      Accepted (.array (.string operator :: args))

/-- An expression has the shape of a value. -/
inductive Mirrors : Json → Expression → Prop
  | number (n : Json.Number) : Mirrors (.number n) (.number n.toDouble)
  | bool (b : Bool) : Mirrors (.bool b) (.bool b)
  | string (s : String) : Mirrors (.string s) (.string s)
  | numbers (ns : List Json.Number) :
      Mirrors (.array (ns.map .number)) (.numberArray (ns.map Json.Number.toDouble))
  | call (operator : String) {args : List Json} {es : List Expression}
      (hArgs : List.Forall₂ Mirrors args es) :
      Mirrors (.array (.string operator :: args)) (.call operator es)

mutual

/-- The parts of a value in reading order: the value itself, and the parts of its elements if it is
headed by a string. -/
def visited : Json → List Json
  | .array (.string operator :: args) =>
    .array (.string operator :: args) :: .string operator :: visitedAll args
  | value => [value]

/-- The parts of several values. -/
def visitedAll : List Json → List Json
  | [] => []
  | value :: rest => visited value ++ visitedAll rest

end

/-- What is wrong with a value itself, whatever its parts are. -/
inductive Offends : Json → ExpressionError → Prop
  | null : Offends .null (.unhandledValue .null)
  | object (members : List (String × Json)) :
      Offends (.object members) (.unhandledValue (.object members))
  | array {items : List Json} (hNumbers : ∀ ns : List Json.Number, items ≠ ns.map .number)
      (hHead : ∀ operator args, items ≠ .string operator :: args) :
      Offends (.array items) (.expectedOperator (.array items))

section Arrays

variable {items args : List Json} {operator : String}

theorem mapM_double?_numbers (ns : List Json.Number) :
    (ns.map Json.number).mapM Json.double? = some (ns.map Json.Number.toDouble) := by
  induction ns with
  | nil => rfl
  | cons n ns ih => simp [Json.double?, ih]

/-- Values that are all numbers are the values of numbers. -/
theorem exists_of_mapM_double? {xs : List Float} (h : items.mapM Json.double? = some xs) :
    ∃ ns : List Json.Number, items = ns.map .number := by
  induction items generalizing xs with
  | nil => exact ⟨[], rfl⟩
  | cons item rest ih =>
      rw [List.mapM_cons] at h
      cases item with
      | number n =>
          obtain ⟨_, -, hOthers⟩ := Option.bind_eq_some_iff.mp h
          obtain ⟨ys, hRest, -⟩ := Option.bind_eq_some_iff.mp hOthers
          obtain ⟨ns, rfl⟩ := ih hRest
          exact ⟨n :: ns, rfl⟩
      | _ => cases h

/-- Values that are not all numbers are not read as an array of numbers. -/
theorem mapM_double?_eq_none (h : ∀ ns : List Json.Number, items ≠ ns.map .number) :
    items.mapM Json.double? = none := by
  apply Option.eq_none_iff_forall_ne_some.mpr
  intro xs hSome
  obtain ⟨ns, hItems⟩ := exists_of_mapM_double? hSome
  exact h ns hItems

/-- An array of numbers is read as a literal array. -/
theorem ofJson_numbers (ns : List Json.Number) :
    ofJson (.array (ns.map .number)) = .ok (.numberArray (ns.map Json.Number.toDouble)) := by
  rw [ofJson, mapM_double?_numbers]
  cases ns <;> simp

/-- An array that is headed by a string is read as a call once its arguments are read. -/
theorem ofJson_call (operator : String) (args : List Json) :
    ofJson (.array (.string operator :: args)) = (ofItems args).map (.call operator) := by
  rw [ofJson]
  rfl

/-- A value that offends is refused for that, whatever its parts are. -/
theorem Offends.ofJson_eq {value : Json} {error : ExpressionError} (h : Offends value error) :
    ofJson value = .error error := by
  cases h with
  | null => rw [ofJson]
  | object members => rw [ofJson]
  | array hNumbers hHead =>
      rw [ofJson, mapM_double?_eq_none hNumbers]
      exact hHead

/-- An array holds numbers only, is headed by a string, or offends. -/
theorem array_cases (items : List Json) :
    (∃ ns : List Json.Number, items = ns.map .number) ∨
      (∃ operator args, items = .string operator :: args) ∨
        Offends (.array items) (.expectedOperator (.array items)) := by
  by_cases hNumbers : ∃ ns : List Json.Number, items = ns.map .number
  · exact .inl hNumbers
  · by_cases hHead : ∃ operator args, items = .string operator :: args
    · exact .inr (.inl hHead)
    · right
      right
      apply Offends.array
      · exact fun ns hItems => hNumbers ⟨ns, hItems⟩
      · exact fun operator args hItems => hHead ⟨operator, args, hItems⟩

end Arrays

section Acceptance

variable {args : List Json}

/-- Several values are read one by one. -/
theorem ofItems_eq_ok_iff {es : List Expression}
    (h : ∀ arg ∈ args, ∀ e, ofJson arg = .ok e ↔ Mirrors arg e) :
    ofItems args = .ok es ↔ List.Forall₂ Mirrors args es := by
  induction args generalizing es with
  | nil =>
      rw [ofItems, List.forall₂_nil_left_iff]
      exact ⟨fun hOk => (Except.ok.inj hOk).symm, fun hNil => hNil ▸ rfl⟩
  | cons arg rest ih =>
      obtain ⟨hFirst, hRest⟩ := List.forall_mem_cons.mp h
      rw [ofItems, List.forall₂_cons_left_iff]
      constructor
      · intro hOk
        obtain ⟨e, hArg, hOk⟩ := bind_eq_ok hOk
        obtain ⟨others, hOthers, hOk⟩ := bind_eq_ok hOk
        exact ⟨e, others, (hFirst e).mp hArg, (ih hRest).mp hOthers, (Except.ok.inj hOk).symm⟩
      · rintro ⟨e, others, hArg, hOthers, rfl⟩
        rw [(hFirst e).mpr hArg, (ih hRest).mpr hOthers]
        rfl

/-- Reading gives just the expressions that have the shape of the value. -/
theorem ofJson_eq_ok_iff (value : Json) (e : Expression) :
    ofJson value = .ok e ↔ Mirrors value e := by
  -- A literal is read as the only expression of its shape.
  have hLiteral : ∀ {value e' e}, ofJson value = .ok e' → Mirrors value e' →
      (Mirrors value e → e' = e) → (ofJson value = .ok e ↔ Mirrors value e) := by
    intro value e' e hOk hMirrors hUnique
    rw [hOk]
    exact ⟨fun hEq => Except.ok.inj hEq ▸ hMirrors, fun h => congrArg _ (hUnique h)⟩
  induction value generalizing e with
  | null =>
      rw [Offends.null.ofJson_eq]
      exact ⟨nofun, nofun⟩
  | object members _ =>
      rw [(Offends.object members).ofJson_eq]
      exact ⟨nofun, nofun⟩
  | bool b => exact hLiteral (by rw [ofJson]) (.bool b) fun | .bool _ => rfl
  | number n => exact hLiteral (by rw [ofJson]) (.number n) fun | .number _ => rfl
  | string s => exact hLiteral (by rw [ofJson]) (.string s) fun | .string _ => rfl
  | array items ih =>
      have hItems : ∀ {operator args es}, items = .string operator :: args →
          (ofItems args = .ok es ↔ List.Forall₂ Mirrors args es) := by
        rintro operator args es rfl
        exact ofItems_eq_ok_iff fun arg hArg => ih arg (List.mem_cons_of_mem _ hArg)
      constructor
      · intro hOk
        rcases array_cases items with ⟨ns, rfl⟩ | ⟨operator, args, rfl⟩ | hOffends
        · rw [ofJson_numbers] at hOk
          cases hOk
          exact .numbers ns
        · rw [ofJson_call] at hOk
          cases hArgs : ofItems args with
          | error fault =>
              rw [hArgs] at hOk
              cases hOk
          | ok es =>
              rw [hArgs] at hOk
              cases hOk
              exact .call operator ((hItems rfl).mp hArgs)
        · rw [hOffends.ofJson_eq] at hOk
          cases hOk
      · intro hMirrors
        cases hMirrors with
        | numbers ns => exact ofJson_numbers ns
        | call operator hArgs =>
            rw [ofJson_call, (hItems rfl).mpr hArgs]
            rfl

/-- Arguments have expressions of their shape together just in case each of them has one. -/
theorem exists_mirrors_iff :
    (∃ es, List.Forall₂ Mirrors args es) ↔ ∀ arg ∈ args, ∃ e, Mirrors arg e := by
  induction args with
  | nil => simp
  | cons arg rest ih =>
      rw [List.forall_mem_cons, ← ih]
      constructor
      · rintro ⟨_, hMirrors⟩
        obtain ⟨e, others, hFirst, hRest, -⟩ := List.forall₂_cons_left_iff.mp hMirrors
        exact ⟨⟨e, hFirst⟩, others, hRest⟩
      · rintro ⟨⟨e, hFirst⟩, others, hRest⟩
        exact ⟨e :: others, .cons hFirst hRest⟩

/-- The grammar has just the values that some expression mirrors. -/
theorem accepted_iff (value : Json) : Accepted value ↔ ∃ e, Mirrors value e := by
  induction value with
  | null => exact ⟨nofun, nofun⟩
  | object members _ => exact ⟨nofun, nofun⟩
  | bool b => exact ⟨fun _ => ⟨_, .bool b⟩, fun _ => .bool b⟩
  | number n => exact ⟨fun _ => ⟨_, .number n⟩, fun _ => .number n⟩
  | string s => exact ⟨fun _ => ⟨_, .string s⟩, fun _ => .string s⟩
  | array items ih =>
      constructor
      · intro hAccepted
        cases hAccepted with
        | numbers ns => exact ⟨_, .numbers ns⟩
        | call operator hArgs =>
            obtain ⟨es, hMirrors⟩ := exists_mirrors_iff.mpr fun arg hArg =>
              (ih arg (List.mem_cons_of_mem _ hArg)).mp (hArgs arg hArg)
            exact ⟨_, .call operator hMirrors⟩
      · rintro ⟨e, hMirrors⟩
        cases hMirrors with
        | numbers ns => exact .numbers ns
        | call operator hArgs =>
            apply Accepted.call
            intro arg hArg
            exact (ih arg (List.mem_cons_of_mem _ hArg)).mpr
              (exists_mirrors_iff.mp ⟨_, hArgs⟩ arg hArg)

/-- The two ways in which an array is an expression. -/
theorem accepted_array_iff {items : List Json} :
    Accepted (.array items) ↔ (∃ ns : List Json.Number, items = ns.map .number) ∨
      ∃ operator args, items = .string operator :: args ∧ ∀ arg ∈ args, Accepted arg := by
  constructor
  · intro h
    cases h with
    | numbers ns => exact .inl ⟨ns, rfl⟩
    | call operator hArgs => exact .inr ⟨operator, _, rfl, hArgs⟩
  · rintro (⟨ns, rfl⟩ | ⟨operator, args, rfl, hArgs⟩)
    · exact .numbers ns
    · exact .call operator hArgs

end Acceptance

section Offences

variable {value : Json} {error : ExpressionError}

/-- A check for what is wrong with a value itself. -/
def offence? : Json → Option ExpressionError
  | .null => some (.unhandledValue .null)
  | .object members => some (.unhandledValue (.object members))
  | .array (.string _ :: _) => none
  | .array items =>
    if (items.mapM Json.double?).isSome then none else some (.expectedOperator (.array items))
  | _ => none

@[simp] theorem offence?_numbers (ns : List Json.Number) :
    offence? (.array (ns.map .number)) = none := by
  rw [offence?, mapM_double?_numbers]
  · rfl
  · cases ns <;> simp

theorem Offends.offence?_eq (h : Offends value error) : offence? value = some error := by
  cases h with
  | null => rfl
  | object members => rfl
  | array hNumbers hHead =>
      rw [offence?, mapM_double?_eq_none hNumbers]
      · rfl
      · exact hHead

/-- The check for what is wrong with a value finds just that. -/
theorem offence?_eq_some_iff : offence? value = some error ↔ Offends value error := by
  constructor
  · intro hSome
    cases value with
    | null => cases hSome; exact .null
    | object members => cases hSome; exact .object members
    | array items =>
        rcases array_cases items with ⟨ns, rfl⟩ | ⟨operator, args, rfl⟩ | hOffends
        · simp at hSome
        · cases hSome
        · rw [hOffends.offence?_eq] at hSome
          cases hSome
          exact hOffends
    | _ => cases hSome
  · exact Offends.offence?_eq

/-- Nothing is looked at inside a value that is not headed by a string. -/
theorem visited_of_not_headed (h : ∀ operator args, value ≠ .array (.string operator :: args)) :
    visited value = [value] := by
  rw [visited]
  exact h

/-- Arguments are refused for the first part of them that offends. -/
theorem fault?_ofItems {args : List Json}
    (h : ∀ arg ∈ args, fault? (ofJson arg) = (visited arg).findSome? offence?) :
    fault? (ofItems args) = (visitedAll args).findSome? offence? := by
  induction args with
  | nil => rfl
  | cons arg rest ih =>
      obtain ⟨hFirst, hRest⟩ := List.forall_mem_cons.mp h
      rw [visitedAll, List.findSome?_append, ← hFirst, ← ih hRest, ofItems]
      cases ofJson arg with
      | error fault => rfl
      | ok e => cases ofItems rest <;> rfl

/-- A value is refused for its first part that offends. -/
theorem fault?_ofJson (value : Json) :
    fault? (ofJson value) = (visited value).findSome? offence? := by
  induction value with
  | array items ih =>
      rcases array_cases items with ⟨ns, rfl⟩ | ⟨operator, args, rfl⟩ | hOffends
      · rw [ofJson_numbers, visited_of_not_headed (by cases ns <;> simp)]
        simp [fault?]
      · have hArgs := fault?_ofItems fun arg hArg => ih arg (List.mem_cons_of_mem _ hArg)
        rw [ofJson_call, visited]
        simp only [List.findSome?_cons, offence?, ← hArgs]
        cases ofItems args <;> rfl
      · rw [hOffends.ofJson_eq, visited_of_not_headed]
        · simp [fault?, hOffends.offence?_eq]
        · cases hOffends with
          | array _ hHead =>
              exact fun operator args hItems => hHead operator args (Json.array.inj hItems)
  | _ =>
      rw [ofJson, visited_of_not_headed (by simp)]
      rfl

end Offences

/-- Reading accepts just the grammar, and the expression has the shape of the value. Any other value
is refused for its first part that offends, and the message quotes that part. -/
theorem reading_accepts_grammar (value : Json) :
    ((∃ e, ofJson value = .ok e) ↔ Accepted value) ∧
    (∀ e, ofJson value = .ok e ↔ Mirrors value e) ∧
    (∀ error, ofJson value = .error error ↔
      ∃ before part after, visited value = before ++ part :: after ∧ Offends part error ∧
        ∀ earlier ∈ before, ∀ other, ¬ Offends earlier other) ∧
    ∀ part error, Offends part error →
      error.message = "Unhandled value type: " ++ part.text ∨
      error.message = "Expected an expression operator but received: " ++ part.text := by
  refine ⟨?_, ofJson_eq_ok_iff value, ?_, ?_⟩
  · rw [accepted_iff]
    exact exists_congr (ofJson_eq_ok_iff value)
  · intro error
    have hBefore : ∀ earlier, offence? earlier = none ↔ ∀ other, ¬ Offends earlier other := by
      intro earlier
      simp only [Option.eq_none_iff_forall_ne_some, ne_eq, offence?_eq_some_iff]
    rw [← fault?_eq_some_iff, fault?_ofJson, List.findSome?_eq_some_iff]
    simp only [hBefore, offence?_eq_some_iff]
  · rintro part error (_ | members | _)
    · exact .inl rfl
    · exact .inl rfl
    · exact .inr rfl

/-- An array that mixes numbers and strings, after a call that is fine and before a null. -/
def sampleMixed : Json := .array [.number (.whole 1), .string "x"]

theorem sampleMixed_offends : Offends sampleMixed (.expectedOperator sampleMixed) :=
  offence?_eq_some_iff.mp (by rfl)

theorem reading_accepts_grammar_sampleMixed :
    let value := Json.array [.string "case", .array [.string "get"], sampleMixed, .null]
    ofJson value = .error (.expectedOperator sampleMixed) ∧ ¬ Accepted value ∧
      Offends sampleMixed (.expectedOperator sampleMixed) := by
  intro value
  obtain ⟨hAccepted, -, hError, -⟩ := reading_accepts_grammar value
  have hFails : ofJson value = .error (.expectedOperator sampleMixed) := by
    refine (hError _).mpr ⟨[value, .string "case", .array [.string "get"], .string "get"],
      sampleMixed, [.null], ?_, sampleMixed_offends, ?_⟩
    · rfl
    · simp [value, ← offence?_eq_some_iff, offence?]
  refine ⟨hFails, ?_, sampleMixed_offends⟩
  rw [← hAccepted, hFails]
  exact nofun

end Expression

end PointStyle
