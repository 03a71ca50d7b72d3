import PointStyle.Proofs.Colour.Alpha

/-! Equality and hashing of colours. Alphas are compared as numbers but hashed by their patterns.
Among colours that are read from texts there are two places where this shows: an alpha that is not a
number is not equal to itself, and the two zeros are equal but hashed apart. -/
namespace PointStyle

namespace Colour

variable {c d : Colour} {input other : String}

theorem sameAs_iff :
    c.sameAs d ↔ c.red = d.red ∧ c.green = d.green ∧ c.blue = d.blue ∧
      (c.alpha == d.alpha) = true := by
  simp only [sameAs, Bool.and_eq_true, beq_iff_eq, and_assoc]

/-- Two colours are hashed alike if they have the same channels and the patterns of their alphas are
the same. -/
theorem hashKey_eq_iff :
    c.hashKey = d.hashKey ↔
      c.red = d.red ∧ c.green = d.green ∧ c.blue = d.blue ∧ c.alpha.toBits = d.alpha.toBits := by
  simp only [hashKey, Prod.mk.injEq]

theorem sameAs_comm (c d : Colour) : c.sameAs d = d.sameAs c := by
  rw [Bool.eq_iff_iff, sameAs_iff, sameAs_iff, Datum.beq_comm c.alpha d.alpha]
  simp only [eq_comm]

/-- Looking the same can be chained. -/
theorem sameAs_trans {e : Colour} (hFirst : c.sameAs d) (hSecond : d.sameAs e) : c.sameAs e := by
  rw [sameAs_iff] at hFirst hSecond ⊢
  obtain ⟨hRed, hGreen, hBlue, hAlpha⟩ := hFirst
  rw [hRed, hGreen, hBlue]
  exact hSecond.imp_right fun h => h.imp_right fun h => h.imp_right (Datum.beq_trans hAlpha)

/-- A colour is equal to itself unless its text gives `nan` for the alpha. -/
theorem sameAs_self_iff (h : parse input = .ok c) :
    c.sameAs c ↔ ¬ GivesAlpha input Datum.nan.toDouble := by
  have hSelf : c.sameAs c ↔ Datum.ofSingle c.alpha ≠ .nan := by
    rw [sameAs_iff, Datum.beq_self_iff]
    simp only [true_and]
  rw [hSelf]
  constructor
  · intro hNumber hNan
    rw [alpha_of_nan h hNan] at hNumber
    exact hNumber (by decide)
  · intro hGiven hNan
    have hFinite := isFinite_of_unit ((unit_of_parse_iff h).mpr hGiven)
    rw [← Datum.isFinite_ofSingle, hNan] at hFinite
    cases hFinite

/-- The alpha of a colour that is read is the negative zero just in case its text gives that
zero. -/
theorem toBits_eq_signBit_iff (h : parse input = .ok c) :
    c.alpha.toBits.toNat = BinaryFormat.single.signBit ↔
      GivesAlpha input (Datum.zero true).toDouble := by
  constructor
  · intro hBits
    rcases alpha_of_parse h with hNan | hZero | hMost
    · rw [alpha_of_nan h hNan] at hBits
      exact absurd hBits (by decide)
    · exact hZero
    · rw [hBits] at hMost
      exact absurd hMost (by decide)
  · intro hZero
    rw [alpha_of_negativeZero h hZero]
    decide

/-- Equal colours are hashed alike unless just one of their texts gives a negative zero. -/
theorem hashKey_eq_iff_of_sameAs (h : parse input = .ok c) (hOther : parse other = .ok d)
    (hSame : c.sameAs d) :
    c.hashKey = d.hashKey ↔
      (GivesAlpha input (Datum.zero true).toDouble ↔
        GivesAlpha other (Datum.zero true).toDouble) := by
  have hSelf : c.sameAs c := sameAs_trans hSame (sameAs_comm c d ▸ hSame)
  have hFinite := isFinite_of_unit ((unit_of_parse_iff h).mpr ((sameAs_self_iff h).mp hSelf))
  obtain ⟨hRed, hGreen, hBlue, hAlpha⟩ := sameAs_iff.mp hSame
  rw [hashKey_eq_iff, and_iff_right hRed, and_iff_right hGreen, and_iff_right hBlue,
    Datum.toBits_eq_iff_of_beq hAlpha hFinite, toBits_eq_signBit_iff h,
    toBits_eq_signBit_iff hOther]

/-- Equality of colours is symmetric and transitive. For colours that are read from texts it is
reflexive, and agrees with the hash, but for two exceptions: a colour whose text gives `nan` for its
alpha is not equal to itself, and a negative zero and a positive one are equal but hashed apart. -/
theorem equality_and_hash_of_parse (h : parse input = .ok c) (hOther : parse other = .ok d) :
    (c.sameAs c ↔ ¬ GivesAlpha input Datum.nan.toDouble) ∧
    (c.sameAs d → d.sameAs c) ∧
    (∀ e, c.sameAs d → d.sameAs e → c.sameAs e) ∧
    (c.sameAs d → (c.hashKey = d.hashKey ↔
      (GivesAlpha input (Datum.zero true).toDouble ↔
        GivesAlpha other (Datum.zero true).toDouble))) := by
  refine ⟨sameAs_self_iff h, fun hSame => ?_, fun _ => sameAs_trans,
    hashKey_eq_iff_of_sameAs h hOther⟩
  rwa [sameAs_comm]

theorem equality_and_hash_of_parse_zeros :
    ∃ c d, parse "rgba(1, 2, 3, 0)" = .ok c ∧ parse "rgba(1, 2, 3, -0)" = .ok d ∧ c.sameAs d ∧
      d.sameAs c ∧ ¬ GivesAlpha "rgba(1, 2, 3, 0)" Datum.nan.toDouble ∧
      ¬ (GivesAlpha "rgba(1, 2, 3, 0)" (Datum.zero true).toDouble ↔
        GivesAlpha "rgba(1, 2, 3, -0)" (Datum.zero true).toDouble) := by
  have hZero : parse "rgba(1, 2, 3, 0)" = .ok ⟨1, 2, 3, 0⟩ := by decide
  have hNegative :
      parse "rgba(1, 2, 3, -0)" = .ok ⟨1, 2, 3, (Datum.zero true).toSingle⟩ := by decide
  obtain ⟨hSelf, hSymm, -, hHash⟩ := equality_and_hash_of_parse hZero hNegative
  refine ⟨_, _, hZero, hNegative, by decide, hSymm (by decide), hSelf.mp (by decide), ?_⟩
  rw [← hHash (by decide)]
  decide

/-- A colour that is not equal to itself, and two that are equal but hashed apart. -/
theorem equality_and_hash_disagree :
    (∃ c, parse "rgba(1, 2, 3, nan)" = .ok c ∧ c.sameAs c = false) ∧
      ∃ c d, parse "rgba(1, 2, 3, 0)" = .ok c ∧ parse "rgba(1, 2, 3, -0)" = .ok d ∧ c.sameAs d ∧
        c.hashKey ≠ d.hashKey :=
  ⟨⟨⟨1, 2, 3, Datum.nan.toSingle⟩, by decide, by decide⟩,
    ⟨1, 2, 3, 0⟩, ⟨1, 2, 3, (Datum.zero true).toSingle⟩, by decide, by decide, by decide, by decide⟩

end Colour

end PointStyle
