import PointStyle.Json.Value

/-! Induction over JSON values. -/
namespace PointStyle

namespace Json

/-- What holds of a container when it holds of its contents holds of all values. -/
@[induction_eliminator]
theorem inductionOn {motive : Json → Prop} (null : motive .null) (bool : ∀ b, motive (.bool b))
    (number : ∀ n, motive (.number n)) (string : ∀ s, motive (.string s))
    (array : ∀ items, (∀ item ∈ items, motive item) → motive (.array items))
    (object : ∀ members, (∀ entry ∈ members, motive entry.2) → motive (.object members))
    (value : Json) : motive value := by
  apply @Json.rec motive (fun items => ∀ item ∈ items, motive item)
    (fun members => ∀ entry ∈ members, motive entry.2) (fun entry => motive entry.2)
  · exact null
  · exact bool
  · exact number
  · exact string
  · exact array
  · exact object
  · exact List.forall_mem_nil _
  · intro first rest hFirst hRest
    exact List.forall_mem_cons.mpr ⟨hFirst, hRest⟩
  · exact List.forall_mem_nil _
  · intro first rest hFirst hRest
    exact List.forall_mem_cons.mpr ⟨hFirst, hRest⟩
  · intro name value hValue
    exact hValue

end Json

end PointStyle
