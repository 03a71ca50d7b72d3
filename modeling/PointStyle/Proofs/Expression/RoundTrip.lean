import PointStyle.Proofs.Expression.Grammar
import PointStyle.Proofs.Json.Held

/-! Expressions that are written as JSON and read again. A number that is not finite is written as
null, which no expression is, so what was lost is noticed. -/
namespace PointStyle

namespace Expression

/-- What holds of a call when it holds of its arguments holds of all expressions. -/
@[induction_eliminator]
theorem inductionOn {motive : Expression → Prop} (number : ∀ x, motive (.number x))
    (bool : ∀ b, motive (.bool b)) (string : ∀ s, motive (.string s))
    (numberArray : ∀ xs, motive (.numberArray xs))
    (call : ∀ operator args, (∀ arg ∈ args, motive arg) → motive (.call operator args))
    (e : Expression) : motive e := by
  apply @Expression.rec motive (fun args => ∀ arg ∈ args, motive arg)
  · exact number
  · exact bool
  · exact string
  · exact numberArray
  · exact call
  · exact List.forall_mem_nil _
  · intro first rest hFirst hRest
    exact List.forall_mem_cons.mpr ⟨hFirst, hRest⟩

mutual

/-- The numbers of an expression, at any depth. -/
def numbers : Expression → List Float
  | .number x => [x]
  | .numberArray xs => xs
  | .call _ args => numbersAll args
  | .bool _ | .string _ => []

/-- The numbers of several expressions. -/
def numbersAll : List Expression → List Float
  | [] => []
  | e :: rest => e.numbers ++ numbersAll rest

end

/-- All numbers of an expression are finite. -/
def IsFinite (e : Expression) : Prop :=
  ∀ x ∈ e.numbers, x.isFinite = true

instance : DecidablePred IsFinite := fun e =>
  inferInstanceAs (Decidable (∀ x ∈ e.numbers, x.isFinite = true))

section

variable {operator : String} {args es : List Expression} {e : Expression} {value : Json}
  {items : List Json} {xs : List Float}

theorem isFinite_number {x : Float} : IsFinite (.number x) ↔ x.isFinite = true := by
  simp [IsFinite, numbers]

theorem isFinite_numberArray : IsFinite (.numberArray xs) ↔ ∀ x ∈ xs, x.isFinite = true := by
  rw [IsFinite, numbers]

theorem isFinite_call : IsFinite (.call operator args) ↔ ∀ arg ∈ args, arg.IsFinite := by
  have hAll : (∀ x ∈ numbersAll args, x.isFinite = true) ↔ ∀ arg ∈ args, arg.IsFinite := by
    induction args with
    | nil => simp [numbersAll]
    | cons arg rest ih =>
        rw [numbersAll, List.forall_mem_append, List.forall_mem_cons, ih, IsFinite]
  rw [IsFinite, numbers, hAll]

section Writing

/-- A double is written as a number if it is finite, and as null otherwise. -/
theorem ofDouble_cases (x : Float) :
    x.isFinite = true ∧ Json.ofDouble x = .number (.double x) ∨
      x.isFinite = false ∧ Json.ofDouble x = .null := by
  rw [Json.ofDouble, Datum.isFinite_ofDouble]
  cases x.isFinite
  · exact .inr ⟨rfl, rfl⟩
  · exact .inl ⟨rfl, rfl⟩

/-- A double is written as a number just in case it is finite. -/
theorem ofDouble_eq_number_iff {x : Float} {n : Json.Number} :
    Json.ofDouble x = .number n ↔ x.isFinite = true ∧ n = .double x := by
  rcases ofDouble_cases x with ⟨hFinite, hValue⟩ | ⟨hLost, hValue⟩
  · simp [hFinite, hValue, eq_comm]
  · simp [hLost, hValue]

theorem toItems_eq_map (args : List Expression) : toItems args = args.map toJson := by
  induction args with
  | nil => rfl
  | cons e rest ih => rw [toItems, ih, List.map_cons]

/-- A finite expression is written as a value of its shape. -/
theorem mirrors_toJson (e : Expression) (h : e.IsFinite) : Mirrors e.toJson e := by
  induction e with
  | number x =>
      rw [toJson, ofDouble_eq_number_iff.mpr ⟨isFinite_number.mp h, rfl⟩]
      exact .number (.double x)
  | bool b => exact .bool b
  | string s => exact .string s
  | numberArray xs =>
      have hItems : (xs.map Json.Number.double).map Json.number = xs.map Json.ofDouble := by
        rw [List.map_map]
        apply List.map_congr_left
        intro x hx
        exact (ofDouble_eq_number_iff.mpr ⟨isFinite_numberArray.mp h x hx, rfl⟩).symm
      have hValues : (xs.map Json.Number.double).map Json.Number.toDouble = xs := by
        rw [List.map_map]
        exact List.map_id xs
      have hMirrors := Mirrors.numbers (xs.map .double)
      rw [hItems, hValues] at hMirrors
      exact hMirrors
  | call operator args ih =>
      have hArgs := isFinite_call.mp h
      rw [toJson, toItems_eq_map]
      apply Mirrors.call
      rw [List.forall₂_map_left_iff, List.forall₂_same]
      exact fun arg hArg => ih arg hArg (hArgs arg hArg)

/-- Only finite expressions are written as expressions. -/
theorem isFinite_of_accepted (e : Expression) (h : Accepted e.toJson) : e.IsFinite := by
  induction e with
  | number x =>
      rw [toJson] at h
      rcases ofDouble_cases x with ⟨hFinite, -⟩ | ⟨-, hNull⟩
      · exact isFinite_number.mpr hFinite
      · rw [hNull] at h
        cases h
  | bool b => exact List.forall_mem_nil _
  | string s => exact List.forall_mem_nil _
  | numberArray xs =>
      rw [isFinite_numberArray]
      intro x hx
      have hItem : Json.ofDouble x ∈ xs.map Json.ofDouble := List.mem_map_of_mem hx
      rw [toJson] at h
      rcases accepted_array_iff.mp h with ⟨ns, hNumbers⟩ | ⟨operator, args, hCall, -⟩
      · rw [hNumbers] at hItem
        obtain ⟨n, -, hn⟩ := List.mem_map.mp hItem
        exact (ofDouble_eq_number_iff.mp hn.symm).1
      · -- No double is written as a string.
        obtain ⟨y, _, rfl, hHead, -⟩ := List.map_eq_cons_iff.mp hCall
        rcases ofDouble_cases y
          with ⟨-, hValue⟩ | ⟨-, hValue⟩ <;> rw [hValue] at hHead <;> cases hHead
  | call operator args ih =>
      rw [isFinite_call]
      intro arg hArg
      have hItem : arg.toJson ∈ args.map toJson := List.mem_map_of_mem hArg
      rw [toJson, toItems_eq_map] at h
      rcases accepted_array_iff.mp h with ⟨ns, hNumbers⟩ | ⟨_, _, hCall, hArgs⟩
      · cases ns <;> cases hNumbers
      · cases hCall
        exact ih arg hArg (hArgs _ hItem)

end Writing

/-- Each expression in a list mirrors one of the values. -/
theorem exists_mirrored {args : List Json} (h : List.Forall₂ Mirrors args es) :
    ∀ e ∈ es, ∃ arg ∈ args, Mirrors arg e := by
  induction h with
  | nil => exact List.forall_mem_nil _
  | cons hFirst _ ih =>
      intro e he
      rcases List.mem_cons.mp he with rfl | hLater
      · exact ⟨_, List.mem_cons_self, hFirst⟩
      · obtain ⟨arg, hArg, hMirrors⟩ := ih e hLater
        exact ⟨arg, List.mem_cons_of_mem _ hArg, hMirrors⟩

/-- A value that is held in memory gives a finite expression. -/
theorem isFinite_of_mirrors (hHeld : value.IsHeld) (h : Mirrors value e) : e.IsFinite := by
  induction hHeld generalizing e with
  | null => cases h
  | bool b =>
      cases h
      exact List.forall_mem_nil _
  | number hNumber =>
      cases h
      exact isFinite_number.mpr hNumber.isFinite
  | string s =>
      cases h
      exact List.forall_mem_nil _
  | array hItems ih =>
      cases h with
      | numbers ns =>
          rw [isFinite_numberArray, List.forall_mem_map]
          intro n hn
          cases hItems _ (List.mem_map_of_mem hn) with
          | number hNumber => exact hNumber.isFinite
      | call operator hArgs =>
          rw [isFinite_call]
          intro e he
          obtain ⟨arg, hArg, hMirrors⟩ := exists_mirrored hArgs e he
          exact ih arg (List.mem_cons_of_mem _ hArg) hMirrors
  | object _ _ _ => cases h

end

/-- An expression whose numbers are all finite is read as it was written, and no other is. Whatever
is read from a value held in memory, or from a text, is such an expression. -/
theorem round_trip_iff_finite (e : Expression) :
    ((∀ x ∈ e.numbers, x.isFinite = true) → ofJson e.toJson = .ok e) ∧
    ((∃ x ∈ e.numbers, x.isFinite = false) → ∃ error, ofJson e.toJson = .error error) ∧
    (∀ value : Json, value.IsHeld → ofJson value = .ok e → ofJson e.toJson = .ok e) ∧
    ∀ text value, Json.parse text = .ok value → ofJson value = .ok e → ofJson e.toJson = .ok e := by
  have hFinite : e.IsFinite → ofJson e.toJson = .ok e := fun h =>
    (ofJson_eq_ok_iff e.toJson e).mpr (mirrors_toJson e h)
  have hHeld : ∀ value : Json, value.IsHeld → ofJson value = .ok e → ofJson e.toJson = .ok e := by
    intro value hHeld hRead
    exact hFinite (isFinite_of_mirrors hHeld ((ofJson_eq_ok_iff value e).mp hRead))
  refine ⟨hFinite, ?_, hHeld, fun text value hText => hHeld value (Json.isHeld_parse hText)⟩
  rintro ⟨x, hx, hLost⟩
  cases hRead : ofJson e.toJson with
  | error error => exact ⟨error, rfl⟩
  | ok other =>
      have hAccepted :=
        (accepted_iff e.toJson).mpr ⟨other, (ofJson_eq_ok_iff e.toJson other).mp hRead⟩
      have hAll := isFinite_of_accepted e hAccepted x hx
      rw [hLost] at hAll
      cases hAll

/-- A call with a number array of one number and one without any. -/
def sampleNested (x : Float) : Expression :=
  .call "+" [.numberArray [x], .call "get" [.string "height"], .numberArray []]

/-- The value that the call is read from. -/
def sampleValue : Json :=
  .array [.string "+", .array [.number (.whole 1)],
    .array [.string "get", .string "height"], .array []]

theorem isHeld_sampleValue : sampleValue.IsHeld := by
  have hOne : (Json.Number.whole 1).IsHeld := by decide
  apply Json.IsHeld.array
  simp only [List.mem_cons, List.not_mem_nil, or_false, forall_eq_or_imp, forall_eq]
  refine ⟨.string _, .array ?_, .array ?_, .array (List.forall_mem_nil _)⟩
  · simpa using Json.IsHeld.number hOne
  · simpa using ⟨Json.IsHeld.string _, Json.IsHeld.string _⟩

theorem round_trip_iff_finite_sampleNested :
    let one : Float := (Datum.ofInt 1).toDouble
    let infinity : Float := (Datum.infinite false).toDouble
    sampleValue.IsHeld ∧ ofJson sampleValue = .ok (sampleNested one) ∧
      ofJson (sampleNested one).toJson = .ok (sampleNested one) ∧
      ∃ error, ofJson (sampleNested infinity).toJson = .error error := by
  intro one infinity
  have hRead : ofJson sampleValue = .ok (sampleNested one) := rfl
  obtain ⟨-, -, hHeld, -⟩ := round_trip_iff_finite (sampleNested one)
  refine ⟨isHeld_sampleValue, hRead, hHeld sampleValue isHeld_sampleValue hRead, ?_⟩
  apply (round_trip_iff_finite (sampleNested infinity)).2.1
  exact ⟨infinity, List.mem_singleton_self _, by decide⟩

end Expression

end PointStyle
