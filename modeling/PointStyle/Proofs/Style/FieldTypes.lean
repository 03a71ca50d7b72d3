import PointStyle.Proofs.Lowering.Hints
import PointStyle.Proofs.Style.Fields

/-! The types of the fields of a style. Each field is lowered with the types it may have as a hint,
and that is all the checking there is. So a field has a type that is asked for if its expression
heeds the hint; a number, a truth value, an array or a plain call goes through whatever is asked
for. -/
namespace PointStyle

namespace Style

/-- Every field of a style that compiles has types. They meet what is asked for where the hint is
heeded, by strings and by calls that choose their output. Elsewhere the field could be lowered just
as well for any other types. -/
theorem field_types_where_heeded {compiler : Compiler} {pool : Texture.Pool} {style : Style}
    {compiled : Compiled} (hRegistry : compiler.registry = .builtin)
    (hCompile : (compiler.compile pool style).result = .ok compiled) :
    ∀ field ∈ style.fields, ∃ types, Registry.builtin.infer field.source = .ok types ∧
      (Vocabulary.standard.heedsHint field.source → types.meets field.types) ∧
      (Vocabulary.standard.heedsHint field.source = false → ∀ others, ∃ text,
        { field with types := others }.alone .builtin = .ok text) := by
  intro field hField
  obtain ⟨_, hAlone⟩ := (compile_ok_iff .standard hRegistry pool).mp ⟨compiled, hCompile⟩
  have hFault :
      fault? (Vocabulary.standard.script field.source (some field.types)).outcome = none := by
    rw [← Field.fault?_alone, fault?_eq_none_iff]
    exact hAlone field hField
  obtain ⟨phrase, hScript⟩ := fault?_eq_none_iff.mp hFault
  obtain ⟨types, hTypes, hMeets⟩ := Vocabulary.standard.infer_of_script_ok hScript
  refine ⟨types, hTypes, hMeets, fun hIgnored others => ?_⟩
  refine fault?_eq_none_iff.mp ?_
  rw [show Registry.builtin = Vocabulary.standard.registry from rfl, Field.fault?_alone, ← hFault]
  exact Vocabulary.standard.fault?_script_of_not_heedsHint hIgnored _ _

/-- A square with a number where a filter is expected, and a colour that a choice makes. -/
def sampleNumericFilter : Style where
  filter := some (.number 5)
  variableValues := []
  symbol := { Symbol.ofType "square" with
    color := some (.call "case" [.bool true, .string "red", .string "blue"]) }

theorem field_types_where_heeded_sampleNumericFilter :
    ∃ compiled, ((Compiler.standard (Resource.Memory.provider [])).compile .empty
        sampleNumericFilter).result = .ok compiled ∧
      ∀ field ∈ sampleNumericFilter.fields, ∃ types,
        Registry.builtin.infer field.source = .ok types ∧
        (Vocabulary.standard.heedsHint field.source → types.meets field.types) ∧
        (Vocabulary.standard.heedsHint field.source = false → ∀ others, ∃ text,
          { field with types := others }.alone .builtin = .ok text) := by
  have hCompile : ∃ compiled, ((Compiler.standard (Resource.Memory.provider [])).compile .empty
      sampleNumericFilter).result = .ok compiled := ⟨_, rfl⟩
  obtain ⟨compiled, hOk⟩ := hCompile
  exact ⟨compiled, hOk, field_types_where_heeded rfl hOk⟩

/-- A number passes for a filter, though numbers are no truth values. -/
theorem compile_numeric_filter :
    ∃ compiled field types, ((Compiler.standard (Resource.Memory.provider [])).compile .empty
        sampleNumericFilter).result = .ok compiled ∧
      field ∈ sampleNumericFilter.fields ∧ field.types = .boolean ∧
      Registry.builtin.infer field.source = .ok types ∧ types.meets field.types = false ∧
      compiled.builder.discard = "!5.0" :=
  ⟨_, ⟨.fragment, .number 5, .boolean⟩, .number, rfl, by simp [fields, sampleNumericFilter],
    rfl, rfl, by decide, by decide +kernel⟩

end Style

end PointStyle
