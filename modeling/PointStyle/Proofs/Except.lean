/-! Computations that may fail. -/
namespace PointStyle

variable {ε σ α β : Type}

/-- Steps that succeed together succeed each. -/
theorem bind_eq_ok {first : Except ε α} {next : α → Except ε β} {b : β}
    (h : (first >>= next) = .ok b) : ∃ a, first = .ok a ∧ next a = .ok b := by
  cases first with
  | error _ => cases h
  | ok a => exact ⟨a, rfl, h⟩

/-- A sequence of two computations succeeds only if both do, the second from where the first has
ended. -/
theorem ok_of_bind {first : EStateM ε σ α} {next : α → EStateM ε σ β} {state final : σ} {b : β}
    (h : (first >>= next) state = .ok b final) :
    ∃ a middle, first state = .ok a middle ∧ next a middle = .ok b final := by
  change EStateM.bind first next state = _ at h
  unfold EStateM.bind at h
  split at h
  · rename_i a middle hFirst
    exact ⟨a, middle, hFirst, h⟩
  · cases h

/-- The error that a computation ended with. -/
def fault? : Except ε α → Option ε
  | .ok _ => none
  | .error error => some error

@[simp] theorem fault?_eq_none_iff {result : Except ε α} :
    fault? result = none ↔ ∃ a, result = .ok a := by
  cases result <;> simp [fault?]

@[simp] theorem fault?_eq_some_iff {result : Except ε α} {error : ε} :
    fault? result = some error ↔ result = .error error := by
  cases result <;> simp [fault?]

end PointStyle
