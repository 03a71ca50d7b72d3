import PointStyle.Glsl
import PointStyle.Proofs.Glsl.Scanner

/-! The text of a finite number: digits, a point and digits, after a minus sign when it is negative.
So it is read as a numeral or as the negation of one. -/
namespace PointStyle

def IsDigits (text : List Char) : Prop :=
  text ≠ [] ∧ ∀ c ∈ text, c.isDigit

/-- Digits, a point and digits. -/
def IsPointed (text : List Char) : Prop :=
  ∃ whole fraction, text = whole ++ '.' :: fraction ∧ IsDigits whole ∧ IsDigits fraction

namespace Decimal

theorem isDigits_digits (d : Decimal) : IsDigits d.digits := by
  refine ⟨?_, fun c hc => Nat.isDigit_of_mem_toDigits (by decide) (by decide) hc⟩
  rw [digits]
  exact Nat.toDigits_ne_nil

theorem isDigit_replicate (count : Nat) : ∀ c ∈ List.replicate count '0', c.isDigit := by
  intro c hc
  rw [List.eq_of_mem_replicate hc]
  decide

/-- Where the point stands in a positional number with places after it: among the digits, or before
all of them with zeros to fill the places. -/
theorem positional_split {d : Decimal} (h : d.exponent < 0) :
    ∃ whole fraction zeros, (d.positional "").toList = whole ++ '.' :: fraction ∧ IsDigits whole ∧
      (∀ c ∈ fraction, c.isDigit) ∧ whole ++ fraction = List.replicate zeros '0' ++ d.digits ∧
      fraction.length = (-d.exponent).toNat := by
  obtain ⟨hNonempty, hDigits⟩ := d.isDigits_digits
  unfold positional
  simp only [if_neg (Int.not_le.mpr h)]
  split
  · rename_i hPlaces
    refine ⟨d.digits.take (d.digits.length - (-d.exponent).toNat),
      d.digits.drop (d.digits.length - (-d.exponent).toNat), 0, ?_, ⟨?_, fun c hc => ?_⟩,
      fun c hc => ?_, ?_, ?_⟩
    · simp
    · intro hNil
      have hLength := congrArg List.length hNil
      rw [List.length_take, List.length_nil] at hLength
      omega
    · exact hDigits c (List.mem_of_mem_take hc)
    · exact hDigits c (List.mem_of_mem_drop hc)
    · rw [List.take_append_drop, List.replicate_zero, List.nil_append]
    · rw [List.length_drop]
      omega
  · rename_i hPlaces
    refine ⟨['0'], List.replicate ((-d.exponent).toNat - d.digits.length) '0' ++ d.digits,
      (-d.exponent).toNat - d.digits.length + 1, ?_, ⟨List.cons_ne_nil _ _, isDigit_replicate 1⟩,
      fun c hc => ?_, ?_, ?_⟩
    · simp
    · rcases List.mem_append.mp hc with hc | hc
      · exact isDigit_replicate _ c hc
      · exact hDigits c hc
    · rw [List.replicate_succ]
      rfl
    · rw [List.length_append, List.length_replicate]
      omega

/-- A positional number has digits only, or digits and a point. -/
theorem positional_form (d : Decimal) :
    IsDigits (d.positional "").toList ∨ IsPointed (d.positional "").toList := by
  by_cases hWhole : 0 ≤ d.exponent
  · left
    obtain ⟨hNonempty, hDigits⟩ := d.isDigits_digits
    unfold positional
    simp only [if_pos hWhole, String.append_empty, String.toList_ofList]
    refine ⟨by simp [hNonempty], fun c hc => ?_⟩
    rcases List.mem_append.mp hc with hc | hc
    · exact hDigits c hc
    · exact isDigit_replicate _ c hc
  · right
    have hPlaces := Int.not_le.mp hWhole
    obtain ⟨whole, fraction, _, hText, hDigits, hFraction, _, hLength⟩ := positional_split hPlaces
    have hNonempty : 0 < fraction.length := by omega
    exact ⟨whole, fraction, hText, hDigits, List.ne_nil_of_length_pos hNonempty, hFraction⟩

/-- A magnitude in plain format is written with digits only, or with a point between digits. -/
theorem plain_magnitude_form (f : BinaryFormat) (m : Nat) (q : Int) :
    IsDigits (plain.magnitudeText f m q).toList ∨ IsPointed (plain.magnitudeText f m q).toList := by
  unfold Format.magnitudeText
  split
  · exact .inl ⟨by decide, List.all_eq_true.mp (by decide)⟩
  · exact positional_form _

end Decimal

namespace Glsl

/-- Digits with a point between them are a numeral. -/
theorem isNumeral_of_isPointed {text : List Char} (h : IsPointed text) : isNumeral text := by
  obtain ⟨whole, fraction, rfl, ⟨hNonempty, hWhole⟩, _, hFraction⟩ := h
  obtain ⟨c, rest, rfl⟩ := List.exists_cons_of_ne_nil hNonempty
  have hNone : ∀ {digits : List Char}, (∀ c ∈ digits, c.isDigit) → digits.count '.' = 0 := by
    intro digits hDigits
    exact List.count_eq_zero.mpr fun hMem => absurd (hDigits _ hMem) (by decide)
  have hRest : ∀ d ∈ rest, d.isDigit := fun d hd => hWhole d (List.mem_cons_of_mem _ hd)
  simp only [List.cons_append, isNumeral, Bool.and_eq_true, List.all_eq_true, decide_eq_true_eq]
  refine ⟨⟨hWhole c (List.mem_cons_self ..), fun d hd => ?_⟩, ?_⟩
  · rcases List.mem_append.mp hd with hd | hd
    · simp [hRest d hd]
    · rcases List.mem_cons.mp hd with rfl | hd
      · decide
      · simp [hFraction d hd]
  · simp [hNone hRest, hNone hFraction]

/-- A finite number is written as a numeral with a point, after a minus sign or after nothing. -/
theorem number_form {x : Float} (hFinite : (Datum.ofDouble x).isFinite) :
    ∃ sign magnitude, Glsl.number x = sign ++ magnitude ∧ (sign = "" ∨ sign = "-") ∧
      IsPointed magnitude.toList := by
  unfold Glsl.number Decimal.plainDouble
  cases hDatum : Datum.ofDouble x with
  | nan =>
      rw [hDatum] at hFinite
      cases hFinite
  | infinite _ =>
      rw [hDatum] at hFinite
      cases hFinite
  | finite negative m q =>
      have hSigns : (if negative = true then "-" else "") = "" ∨
          (if negative = true then "-" else "") = "-" := by
        cases negative <;> simp
      have hForm := Decimal.plain_magnitude_form .double m q
      rw [Decimal.Format.text]
      generalize (if negative = true then "-" else "") = sign at hSigns ⊢
      generalize Decimal.plain.magnitudeText .double m q = magnitude at hForm ⊢
      rcases hForm with hDigits | hPointed
      · -- A whole number gets its point here.
        have hNoPoint : '.' ∉ (sign ++ magnitude).toList := by
          rw [String.toList_append, List.mem_append, not_or]
          refine ⟨?_, fun hMem => absurd (hDigits.2 _ hMem) (by decide)⟩
          rcases hSigns with rfl | rfl <;> decide
        refine ⟨sign, magnitude ++ ".0", ?_, hSigns, magnitude.toList, ['0'], ?_, hDigits,
          List.cons_ne_nil _ _, List.all_eq_true.mp (by decide)⟩
        · simp only [if_neg hNoPoint, String.append_assoc]
        · simp
      · have hPoint : '.' ∈ (sign ++ magnitude).toList := by
          obtain ⟨whole, fraction, hText, _⟩ := hPointed
          simp [hText]
        exact ⟨sign, magnitude, by simp only [if_pos hPoint], hSigns, hPointed⟩

/-- The tree of a literal; a minus sign negates the numeral after it. -/
def literalTree (text : String) : SyntaxTree Leaf :=
  match text.toList with
  | '-' :: rest => .minus (.leaf (.numeral (String.ofList rest)))
  | _ => .leaf (.numeral text)

def literalTokens (text : String) : List Token :=
  match text.toList with
  | '-' :: rest => [.operator .subtract, .leaf (.numeral (String.ofList rest))]
  | _ => [.leaf (.numeral text)]

/-- The tokens of a literal, with or without a sign, derive its tree. -/
theorem derives_literal (text : String) : Derives 7 (literalTokens text) (literalTree text) := by
  unfold literalTokens literalTree
  split
  · exact .minus (.tighter (.leaf _))
  · exact .tighter (.leaf _)

theorem exists_cons_of_isNumeral {text : List Char} (h : isNumeral text) :
    ∃ c rest, text = c :: rest ∧ c.isDigit := by
  match text with
  | [] => cases h
  | c :: rest =>
      simp only [isNumeral, Bool.and_eq_true] at h
      exact ⟨c, rest, rfl, h.1.1⟩

theorem ne_of_isDigit {c sign : Char} (hDigit : c.isDigit) (hSign : sign.isDigit = false) :
    c ≠ sign := by
  rintro rfl
  rw [hDigit] at hSign
  cases hSign

/-- A minus sign does not run into the numeral after it. -/
theorem scan_minus {magnitude : String} (h : isNumeral magnitude.toList) :
    scan ("-" ++ magnitude) = some [.operator .subtract, .leaf (.numeral magnitude)] := by
  have hApart : Apart "-" magnitude := by
    intro x hx y hy
    obtain ⟨c, rest, hText, hDigit⟩ := exists_cons_of_isNumeral h
    rw [hText] at hy
    have hx : '-' = x := Option.some.inj hx
    have hy : c = y := Option.some.inj hy
    rw [← hx, ← hy]
    have hEqual := ne_of_isDigit hDigit (by decide : '='.isDigit = false)
    have hMinus := ne_of_isDigit hDigit (by decide : '-'.isDigit = false)
    have hLexeme : isLexemeChar '-' = false := by decide
    simp [joins, hLexeme, hEqual, Ne.symm hMinus]
  exact scan_append hApart (by decide : scan "-" = some [.operator .subtract]) (scan_numeral h)

/-- A finite number is read as a numeral or as a negated numeral. -/
theorem scan_number {x : Float} (hFinite : (Datum.ofDouble x).isFinite) :
    scan (Glsl.number x) = some (literalTokens (Glsl.number x)) ∧
      (Glsl.number x).toList.head? ≠ some '=' := by
  obtain ⟨sign, magnitude, hText, hSign, hPointed⟩ := number_form hFinite
  have hNumeral := isNumeral_of_isPointed hPointed
  obtain ⟨c, rest, hMagnitude, hDigit⟩ := exists_cons_of_isNumeral hNumeral
  rcases hSign with rfl | rfl
  · rw [hText, String.empty_append, scan_numeral hNumeral, literalTokens, hMagnitude]
    have hMinus := ne_of_isDigit hDigit (by decide : '-'.isDigit = false)
    have hEqual := ne_of_isDigit hDigit (by decide : '='.isDigit = false)
    refine ⟨?_, fun hHead => hEqual (Option.some.inj hHead)⟩
    split
    · rename_i hEq
      exact absurd (List.cons.inj hEq).1 hMinus
    · rfl
  · have hList : ("-" ++ magnitude).toList = '-' :: magnitude.toList := String.toList_append
    rw [hText, scan_minus hNumeral, literalTokens, hList]
    refine ⟨?_, fun hHead => absurd (Option.some.inj hHead) (by decide)⟩
    simp only [String.ofList_toList]

end Glsl

end PointStyle
