import PointStyle.Colour.Basic
import PointStyle.Proofs.Decimal.Shortest
import PointStyle.Proofs.Glsl.Numeral
import PointStyle.Proofs.Single

/-! The components of a colour. The alpha is widened by way of its shortest decimal, which is never
so far from it that a finite alpha could become infinite. So a colour whose alpha is finite has
finite components, and its text is a vector of four float literals. -/
namespace PointStyle

namespace Glsl

/-- A numeral with a point, after a minus sign or after nothing. -/
def IsFloatLiteral (text : String) : Prop :=
  ∃ sign magnitude, text = sign ++ magnitude ∧ (sign = "" ∨ sign = "-") ∧ IsPointed magnitude.toList

theorem vector_four (x y z w : String) :
    vector [x, y, z, w] = "vec4(" ++ x ++ ", " ++ y ++ ", " ++ z ++ ", " ++ w ++ ")" := by
  have hName : "vec" ++ toString 4 = "vec4" := by decide
  rw [vector, call, show [x, y, z, w].length = 4 from rfl, hName]
  simp [String.intercalate_cons_cons, String.append_assoc]

end Glsl

namespace Colour

variable {m : Nat} {q : Int} {negative : Bool}

/-- A decimal that does not exceed the interval of a single is read as a finite double. -/
theorem isFinite_doubleOfDecimal (h : BinaryFormat.single.Has m q) {c : Nat} {k : Int}
    (hMost : k ≤ 100) (hValue : (c : ℚ) * 10 ^ k / 2 ^ (q - 2) ≤ 4 * m + 2) :
    (Datum.ofDouble (doubleOfDecimal negative c k)).isFinite := by
  have hRange : twoPow BinaryFormat.double.exponentBits = 2048 := rfl
  have hZero : (Datum.ofDouble (Float.ofBits (UInt64.ofNat
      (BinaryFormat.double.signed negative 0)))).isFinite := by
    cases negative <;> decide
  rw [doubleOfDecimal, BinaryFormat.nearestDecimal, hRange]
  split
  · exact hZero
  rw [if_neg (by omega)]
  split
  · exact hZero
  refine Datum.isFinite_nearest (tenPow_pos _) ?_
  have hTop := h.quarters_lt
  have hExponent := h.exponent_le
  rw [div_le_iff₀ (by positivity)] at hValue
  calc ((c * tenPow k.toNat : Nat) : ℚ) / (tenPow (-k).toNat : Nat) = c * 10 ^ k := cast_decimal c k
    _ ≤ (4 * m + 2) * 2 ^ (q - 2) := hValue
    _ ≤ 2 ^ (26 : Int) * 2 ^ (q - 2) := by gcongr
    _ = 2 ^ (26 + (q - 2)) := (zpow_add₀ two_ne_zero _ _).symm
    _ ≤ 2 ^ (900 : Int) := zpow_le_zpow_right₀ one_le_two (by omega)

/-- An alpha is finite just in case it is after widening. -/
theorem isFinite_widen (x : Float32) : (Datum.ofDouble (widen x)).isFinite = x.isFinite := by
  rw [← Datum.isFinite_ofSingle, widen]
  cases hDatum : Datum.ofSingle x with
  | nan => decide
  | infinite negative => cases negative <;> decide
  | finite negative m q =>
      show Datum.isFinite (Datum.ofDouble (if m = 0 then _ else _)) = true
      split
      · cases negative <;> decide
      · rename_i hNonzero
        obtain ⟨hHas, -⟩ := Datum.toBits_of_ofSingle hDatum
        have hBound := hHas.bound
        have hTop := hHas.exponent_le
        rw [BinaryFormat.single_fraction] at hBound
        have hLog : m.log2 < 24 := (Nat.log2_lt hNonzero).mpr hBound
        have hMiddle : (Decimal.Interval.around .single m q).middle ≤
            (Decimal.Interval.around .single m q).high := Nat.le_add_right ..
        obtain ⟨hValue, hExponent⟩ :=
          @Decimal.search_le .up _ q (Decimal.coarsest m q) hMiddle
            (BinaryFormat.single.fractionBits + 3)
        have hCoarsest : Decimal.coarsest m q ≤ 100 := by
          unfold Decimal.coarsest
          omega
        exact isFinite_doubleOfDecimal hHas (hExponent.trans hCoarsest)
          (hValue.trans_eq Decimal.cast_around_high)

/-- A channel is finite, also as a part of 255. -/
theorem isFinite_channel (n : UInt8) :
    (Datum.ofDouble (Datum.ofInt n.toNat).toDouble).isFinite ∧
      (Datum.ofDouble ((Datum.ofDouble (Datum.ofInt n.toNat).toDouble).overNat 255)).isFinite := by
  have hLess : n.toNat < 256 := n.toNat_lt
  rcases Nat.eq_zero_or_pos n.toNat with hZero | hPos
  · rw [hZero]
    decide
  · have hDatum := ofDouble_toDouble_ofInt hPos (by omega)
    generalize n.toNat = channel at *
    generalize 52 - channel.log2 = shift at *
    rw [hDatum]
    refine ⟨rfl, Datum.isFinite_nearest (Nat.mul_pos (by decide) (twoPow_pos _)) ?_⟩
    have hWhole : (-(shift : Int)).toNat = 0 := by omega
    have hShift : (- -(shift : Int)).toNat = shift := by omega
    rw [hWhole, hShift]
    have hBelow : channel * twoPow shift * twoPow 0 ≤ 255 * twoPow shift := by
      rw [show twoPow 0 = 1 from rfl, Nat.mul_one]
      exact Nat.mul_le_mul_right _ (by omega)
    calc ((channel * twoPow shift * twoPow 0 : Nat) : ℚ) / (255 * twoPow shift : Nat) ≤ 1 :=
          div_le_one_of_le₀ (by exact_mod_cast hBelow) (by positivity)
      _ ≤ 2 ^ (900 : Int) := one_le_zpow₀ one_le_two (by decide)

/-- All components are finite just in case the alpha is. -/
theorem isFinite_components_iff (c : Colour) :
    (c.components.1.isFinite = true ∧ c.components.2.1.isFinite = true ∧
      c.components.2.2.1.isFinite = true ∧ c.components.2.2.2.isFinite = true) ↔
      c.alpha.isFinite = true := by
  simp only [← Datum.isFinite_ofDouble, components, isFinite_widen, isFinite_channel, true_and]

/-- The text of a colour with a finite alpha. -/
theorem colour_literals (c : Colour) (h : c.alpha.isFinite = true) :
    ∃ x y z w,
      Glsl.colour c.components.1 c.components.2.1 c.components.2.2.1 c.components.2.2.2 =
        "vec4(" ++ x ++ ", " ++ y ++ ", " ++ z ++ ", " ++ w ++ ")" ∧
      ∀ literal ∈ [x, y, z, w], Glsl.IsFloatLiteral literal := by
  refine ⟨_, _, _, _, Glsl.vector_four _ _ _ _, ?_⟩
  simp only [List.mem_cons, List.not_mem_nil, or_false, forall_eq_or_imp, forall_eq]
  exact ⟨Glsl.number_form (isFinite_channel c.red).2, Glsl.number_form (isFinite_channel c.green).2,
    Glsl.number_form (isFinite_channel c.blue).2,
    Glsl.number_form ((isFinite_widen c.alpha).trans h)⟩

end Colour

end PointStyle
