import Mathlib.Data.List.TakeDrop
import Mathlib.Data.List.TakeWhile
import PointStyle.Decimal.Literal
import PointStyle.Proofs.Glsl.Numeral

/-! The grammar of decimal literals. Reading a literal finds one that the grammar has. It finds the
one that stands there whenever no letter, digit or point follows, as these could continue it. -/
namespace PointStyle

/-- A text whose first character, if it has one, is of a kind. -/
def Begins (p : Char → Bool) (text : List Char) : Prop := ∀ c, text.head? = some c → p c

theorem begins_cons {p : Char → Bool} {c : Char} {rest : List Char} :
    Begins p (c :: rest) ↔ p c := by
  simp [Begins]

theorem Begins.imp {p q : Char → Bool} {text : List Char} (h : Begins p text)
    (hImp : ∀ c, p c → q c) : Begins q text := fun c hc => hImp c (h c hc)

/-- A stretch of characters of a kind is split off where it ends. -/
theorem span_append {p : Char → Bool} {front rest : List Char} (hFront : ∀ c ∈ front, p c)
    (hRest : Begins (!p ·) rest) : (front ++ rest).span p = (front, rest) := by
  rw [List.span_eq_takeWhile_dropWhile, List.takeWhile_append_of_pos hFront,
    List.dropWhile_append_of_pos hFront]
  cases rest with
  | nil => simp
  | cons c rest =>
      have hStop : p c = false := by simpa using begins_cons.mp hRest
      simp [hStop]

/-- What is split off is of the kind, and the rest follows it. -/
theorem append_of_span {p : Char → Bool} {text front rest : List Char}
    (h : text.span p = (front, rest)) : text = front ++ rest ∧ ∀ c ∈ front, p c := by
  rw [List.span_eq_takeWhile_dropWhile] at h
  obtain ⟨rfl, rfl⟩ := Prod.mk.inj h
  exact ⟨List.takeWhile_append_dropWhile.symm, fun c hc => List.mem_takeWhile_imp hc⟩

theorem isUpper_iff {c : Char} : c.isUpper ↔ 'A'.val ≤ c.val ∧ c.val ≤ 'Z'.val := decide_eq_true_iff

theorem isLower_iff {c : Char} : c.isLower ↔ 'a'.val ≤ c.val ∧ c.val ≤ 'z'.val :=
  Bool.and_eq_true_iff.trans (and_congr decide_eq_true_iff decide_eq_true_iff)

theorem isAlpha_iff {c : Char} : c.isAlpha ↔ c.isUpper ∨ c.isLower := Bool.or_eq_true_iff

/-- A character is a letter if its lower case is one. -/
theorem isAlpha_of_toLower {c : Char} (h : c.toLower.isAlpha) : c.isAlpha := by
  unfold Char.toLower at h
  split at h
  · rename_i hUpper
    exact isAlpha_iff.mpr (.inl (isUpper_iff.mpr hUpper))
  · exact h

theorem not_isDigit_of_isAlpha {c : Char} (h : c.isAlpha) : c.isDigit = false := by
  simp only [isAlpha_iff, isUpper_iff, isLower_iff] at h
  simp only [Char.isDigit]
  grind

/-- A letter is not any given character that is none. -/
theorem ne_of_isAlpha {c d : Char} (h : c.isAlpha) (hOther : d.isAlpha = false) : c ≠ d := by
  rintro rfl
  exact Bool.false_ne_true (hOther.symm.trans h)

namespace Decimal

inductive Sign : List Char → Bool → Prop
  | absent : Sign [] false
  | plus : Sign ['+'] false
  | minus : Sign ['-'] true

/-- The digits before and after the point, of which one may be missing but not both. -/
inductive Mantissa : List Char → List Char → List Char → Prop
  | digits {whole : List Char} (hWhole : IsDigits whole) : Mantissa whole whole []
  | pointed {whole fraction : List Char} (hWhole : IsDigits whole)
      (hFraction : ∀ c ∈ fraction, c.isDigit) : Mantissa (whole ++ '.' :: fraction) whole fraction
  | fraction {fraction : List Char} (hFraction : IsDigits fraction) :
      Mantissa ('.' :: fraction) [] fraction

inductive Exponent : List Char → Int → Prop
  | absent : Exponent [] 0
  | present {mark : Char} {sign digits : List Char} {negative : Bool}
      (hMark : mark = 'e' ∨ mark = 'E')
      (hSign : Sign sign negative) (hDigits : IsDigits digits) :
      Exponent (mark :: sign ++ digits)
        (if negative then -(digitsValue digits : Int) else digitsValue digits)

/-- Texts that spell a word in any letter case. -/
def IsWord (word : String) (text : List Char) : Prop := text.map Char.toLower = word.toList

inductive Literal : List Char → Float → Prop
  | decimal {sign mantissa exponent whole fraction : List Char} {negative : Bool} {x : Int}
      (hSign : Sign sign negative) (hMantissa : Mantissa mantissa whole fraction)
      (hExponent : Exponent exponent x) :
      Literal (sign ++ mantissa ++ exponent)
        (doubleOfDecimal negative (digitsValue (whole ++ fraction)) (x - fraction.length))
  | nan {text : List Char} (hWord : IsWord "nan" text) : Literal text Datum.nan.toDouble
  | infinite {text : List Char} (hWord : IsWord "inf" text ∨ IsWord "infinity" text) :
      Literal text (Datum.infinite false).toDouble

section Words

/-- The start of a word is found where it stands, and the search goes on with the rest of the
word. -/
theorem dropWord_append {front word : List Char} (hFront : front.map Char.toLower = word)
    (more rest : List Char) : dropWord (word ++ more) (front ++ rest) = dropWord more rest := by
  subst hFront
  induction front with
  | nil => rfl
  | cons c front ih => simp [dropWord, ih]

/-- A word is found where it stands, in any letter case. -/
theorem dropWord_word {word : String} {front : List Char} (h : IsWord word front)
    (rest : List Char) :
    dropWord word.toList (front ++ rest) = some rest := by
  have hFound := dropWord_append h [] rest
  rwa [List.append_nil] at hFound

/-- Where a word was found it stands, in some letter case. -/
theorem append_of_dropWord {word text rest : List Char} (h : dropWord word text = some rest) :
    ∃ front, text = front ++ rest ∧ front.map Char.toLower = word := by
  induction word generalizing text with
  | nil => exact ⟨[], Option.some.inj h, rfl⟩
  | cons w word ih =>
      cases text with
      | nil => cases h
      | cons c text =>
          simp only [dropWord] at h
          split at h
          · rename_i hFirst
            obtain ⟨front, rfl, hFront⟩ := ih h
            exact ⟨c :: front, rfl, by rw [List.map_cons, hFirst, hFront]⟩
          · cases h

/-- A word is not found where its first letter is not. -/
theorem dropWord_eq_none {w : Char} {word text : List Char} (h : Begins (·.toLower ≠ w) text) :
    dropWord (w :: word) text = none := by
  cases text with
  | nil => rfl
  | cons c text => rw [dropWord, if_neg (by simpa using begins_cons.mp h)]

/-- What a word begins with is its first letter in either case. -/
theorem begins_word {w : Char} {word front : List Char} {p : Char → Bool}
    (h : front.map Char.toLower = w :: word) (hFirst : ∀ c : Char, c.toLower = w → p c)
    (rest : List Char) : Begins p (front ++ rest) := by
  obtain ⟨c, tail, rfl, hLower, -⟩ := List.map_eq_cons_iff.mp h
  exact begins_cons.mpr (hFirst c hLower)

end Words

section Reading

variable {text front rest : List Char}

/-- What may follow a literal: a character that could not continue it. -/
def ends (c : Char) : Bool := !(c.isAlphanum || c == '.')

theorem not_isDigit_of_ends {c : Char} (h : ends c) : !c.isDigit := by
  simp_all [ends, Char.isAlphanum]

/-- A sign is read in front of anything that could begin a number. -/
theorem takeSign_append {sign : List Char} {negative : Bool} (hSign : Sign sign negative)
    (hRest : Begins (!ends ·) rest) : takeSign (sign ++ rest) = (negative, rest) := by
  cases hSign with
  | absent =>
      rw [List.nil_append]
      unfold takeSign
      split
      · exact absurd (begins_cons.mp hRest) (by decide)
      · exact absurd (begins_cons.mp hRest) (by decide)
      · rfl
  | plus => rfl
  | minus => rfl

/-- Where a sign was read it stands, and where none was read there may be none. -/
theorem append_of_takeSign {negative : Bool} (h : takeSign text = (negative, rest)) :
    ∃ sign, text = sign ++ rest ∧ Sign sign negative := by
  unfold takeSign at h
  split at h <;> cases h
  · exact ⟨['+'], rfl, .plus⟩
  · exact ⟨['-'], rfl, .minus⟩
  · exact ⟨[], rfl, .absent⟩

/-- Where the word for a number was read it stands. -/
theorem append_of_takeWord {value : Float} (h : takeWord text = some (value, rest)) :
    ∃ front, text = front ++ rest ∧ Literal front value := by
  unfold takeWord at h
  split at h
  · rename_i hNan
    cases h
    obtain ⟨front, rfl, hFront⟩ := append_of_dropWord hNan
    exact ⟨front, rfl, .nan hFront⟩
  · split at h
    · rename_i hInfinity
      cases h
      obtain ⟨front, rfl, hFront⟩ := append_of_dropWord hInfinity
      exact ⟨front, rfl, .infinite (.inr hFront)⟩
    · obtain ⟨tail, hInf, hEq⟩ := Option.map_eq_some_iff.mp h
      cases hEq
      obtain ⟨front, rfl, hFront⟩ := append_of_dropWord hInf
      exact ⟨front, rfl, .infinite (.inl hFront)⟩

theorem takeWord_nan (h : IsWord "nan" front) :
    takeWord (front ++ rest) = some (Datum.nan.toDouble, rest) := by
  rw [takeWord, dropWord_word h]

/-- Both words for infinity are read, if nothing follows that could continue the shorter one. -/
theorem takeWord_infinite (h : IsWord "inf" front ∨ IsWord "infinity" front)
    (hRest : Begins ends rest) :
    takeWord (front ++ rest) = some ((Datum.infinite false).toDouble, rest) := by
  have hFirst : ∀ c : Char, c.toLower = 'i' → decide (c.toLower ≠ 'n') = true := by
    intro c hc
    rw [hc]
    decide
  have hNan : dropWord "nan".toList (front ++ rest) = none := by
    refine dropWord_eq_none ?_
    rcases h with hInf | hInfinity
    · exact begins_word hInf hFirst rest
    · exact begins_word hInfinity hFirst rest
  rcases h with hInf | hInfinity
  -- The longer word is tried first, but a letter would have to follow.
  · have hLonger : dropWord "infinity".toList (front ++ rest) = none := by
      refine (dropWord_append hInf "inity".toList rest).trans (dropWord_eq_none ?_)
      refine hRest.imp fun c hc => decide_eq_true fun hLower => ?_
      have hLetter : c.isAlpha := isAlpha_of_toLower (by rw [hLower]; decide)
      simp [ends, Char.isAlphanum, hLetter] at hc
    rw [takeWord, hNan, hLonger, dropWord_word hInf]
    rfl
  · rw [takeWord, hNan, dropWord_word hInfinity]

theorem begins_digits {digits : List Char} (h : IsDigits digits) (rest : List Char) :
    Begins (!ends ·) (digits ++ rest) := by
  obtain ⟨d, ds, rfl⟩ := List.exists_cons_of_ne_nil h.1
  have hDigit := h.2 d List.mem_cons_self
  exact begins_cons.mpr (by simp [ends, Char.isAlphanum, hDigit])

/-- The digits of a literal begin with a digit or with the point. -/
theorem Mantissa.begins {mantissa whole fraction : List Char} (h : Mantissa mantissa whole fraction)
    (rest : List Char) : Begins (!ends ·) (mantissa ++ rest) := by
  cases h with
  | digits hWhole => exact begins_digits hWhole rest
  | pointed hWhole hFraction =>
      rw [List.append_assoc]
      exact begins_digits hWhole _
  | fraction hFraction => exact begins_cons.mpr (by decide)

/-- Neither an exponent nor what may follow a literal begins with a digit or with a point, so the
digits before it end there. -/
theorem Exponent.begins {exponent : List Char} {x : Int} (h : Exponent exponent x)
    (hRest : Begins ends rest) : Begins (fun c => !c.isDigit && c != '.') (exponent ++ rest) := by
  cases h with
  | absent =>
      refine hRest.imp fun c hc => ?_
      simp_all [ends, Char.isAlphanum]
  | present hMark hSign hDigits =>
      refine begins_cons.mpr ?_
      rcases hMark with rfl | rfl <;> decide

/-- The digits before and after the point are read up to where they end. -/
theorem takeMantissa_append {mantissa whole fraction : List Char}
    (h : Mantissa mantissa whole fraction) (hRest : Begins (fun c => !c.isDigit && c != '.') rest) :
    takeMantissa (mantissa ++ rest) = some ((whole, fraction), rest) := by
  have hStop : Begins (!·.isDigit) rest := hRest.imp fun c hc => (Bool.and_eq_true_iff.mp hc).1
  have hPoint : ∀ text, Begins (!·.isDigit) ('.' :: text) := fun _ => begins_cons.mpr (by decide)
  unfold takeMantissa
  cases h with
  | digits hWhole =>
      obtain ⟨d, ds, rfl⟩ := List.exists_cons_of_ne_nil hWhole.1
      rw [span_append hWhole.2 hStop]
      cases rest with
      | nil => rfl
      | cons c rest =>
          have hNext : c ≠ '.' := by simpa using (Bool.and_eq_true_iff.mp (begins_cons.mp hRest)).2
          simp [hNext]
  | pointed hWhole hFraction =>
      obtain ⟨d, ds, rfl⟩ := List.exists_cons_of_ne_nil hWhole.1
      rw [List.append_assoc, List.cons_append (a := '.'), span_append hWhole.2 (hPoint _)]
      simp only [span_append hFraction hStop]
  | fraction hFraction =>
      obtain ⟨d, ds, rfl⟩ := List.exists_cons_of_ne_nil hFraction.1
      rw [List.cons_append, ← List.nil_append ('.' :: _), span_append (by simp) (hPoint _)]
      simp only [span_append hFraction.2 hStop]

/-- Where digits were read they stand, and not both parts are missing. -/
theorem append_of_takeMantissa {whole fraction : List Char}
    (h : takeMantissa text = some ((whole, fraction), rest)) :
    ∃ mantissa, text = mantissa ++ rest ∧ Mantissa mantissa whole fraction := by
  unfold takeMantissa at h
  split at h
  · rename_i afterPoint hSpan
    obtain ⟨rfl, -⟩ := append_of_span hSpan
    split at h
    · cases h
    · rename_i hNonempty hFraction
      cases h
      obtain ⟨rfl, hDigits⟩ := append_of_span hFraction
      exact ⟨'.' :: fraction, rfl, .fraction ⟨hNonempty, hDigits⟩⟩
  · cases h
  · rename_i digits afterPoint hNonempty hSpan
    obtain ⟨rfl, hWhole⟩ := append_of_span hSpan
    cases hFraction : afterPoint.span Char.isDigit with
    | mk front back =>
        rw [hFraction] at h
        cases h
        obtain ⟨rfl, hDigits⟩ := append_of_span hFraction
        exact ⟨whole ++ '.' :: fraction, by simp, .pointed ⟨hNonempty, hWhole⟩ hDigits⟩
  · rename_i hNonempty _ hSpan
    cases h
    obtain ⟨rfl, hWhole⟩ := append_of_span hSpan
    exact ⟨whole, rfl, .digits ⟨hNonempty, hWhole⟩⟩

/-- An exponent is read if nothing follows that could continue it. -/
theorem takeExponent_append {exponent : List Char} {x : Int} (h : Exponent exponent x)
    (hRest : Begins ends rest) : takeExponent (exponent ++ rest) = .ok (x, rest) := by
  cases h with
  | absent =>
      cases rest with
      | nil => rfl
      | cons c rest =>
          have hMark : ¬ (c = 'e' ∨ c = 'E') := by
            rintro (rfl | rfl)
            · exact absurd (begins_cons.mp hRest) (by decide)
            · exact absurd (begins_cons.mp hRest) (by decide)
          simp [takeExponent, hMark]
  | present hMark hSign hDigits =>
      rename_i mark sign digits negative
      have hStop : Begins (!·.isDigit) rest := hRest.imp fun _ => not_isDigit_of_ends
      rw [List.cons_append, List.cons_append, List.append_assoc, takeExponent, if_pos hMark,
        takeSign_append hSign (begins_digits hDigits rest)]
      obtain ⟨d, ds, rfl⟩ := List.exists_cons_of_ne_nil hDigits.1
      simp only [span_append hDigits.2 hStop]

/-- Where an exponent was read it stands, and where none was read it is absent. -/
theorem append_of_takeExponent {x : Int} (h : takeExponent text = .ok (x, rest)) :
    ∃ exponent, text = exponent ++ rest ∧ Exponent exponent x := by
  cases text with
  | nil =>
      cases h
      exact ⟨[], rfl, .absent⟩
  | cons c text =>
      rw [takeExponent] at h
      split at h
      · rename_i hMark
        cases hSign : takeSign text with
        | mk negative unsigned =>
            rw [hSign] at h
            dsimp only at h
            split at h
            · cases h
            · rename_i digits _ hNonempty hSpan
              cases h
              obtain ⟨sign, rfl, hSignText⟩ := append_of_takeSign hSign
              obtain ⟨rfl, hDigits⟩ := append_of_span hSpan
              exact ⟨c :: sign ++ digits, by simp, .present hMark hSignText ⟨hNonempty, hDigits⟩⟩
      · cases h
        exact ⟨[], rfl, .absent⟩

/-- Reading finds a literal of the grammar. -/
theorem append_of_readLiteral {value : Float} (h : readLiteral text = .ok (value, rest)) :
    ∃ front, text = front ++ rest ∧ Literal front value := by
  unfold readLiteral at h
  cases hSign : takeSign text with
  | mk negative unsigned =>
      rw [hSign] at h
      dsimp only at h
      split at h
      · rename_i whole fraction afterMantissa hMantissa
        cases hExponent : takeExponent afterMantissa with
        | error fault =>
            rw [hExponent] at h
            cases h
        | ok answer =>
            obtain ⟨exponent, back⟩ := answer
            rw [hExponent] at h
            cases h
            obtain ⟨sign, rfl, hSignText⟩ := append_of_takeSign hSign
            obtain ⟨mantissa, rfl, hMantissaText⟩ := append_of_takeMantissa hMantissa
            obtain ⟨power, rfl, hPower⟩ := append_of_takeExponent hExponent
            exact ⟨sign ++ mantissa ++ power, by simp, .decimal hSignText hMantissaText hPower⟩
      · split at h
        · rename_i hWord
          cases h
          exact append_of_takeWord hWord
        · cases h

theorem takeMantissa_eq_none (h : Begins (fun c => !c.isDigit && c != '.') text) :
    takeMantissa text = none := by
  have hSpan : ([] ++ text).span Char.isDigit = ([], text) :=
    span_append (by simp) (h.imp fun c hc => (Bool.and_eq_true_iff.mp hc).1)
  rw [takeMantissa, ← List.nil_append text, hSpan]
  cases text with
  | nil => rfl
  | cons c rest =>
      have hPoint : c ≠ '.' := by simpa using (Bool.and_eq_true_iff.mp (begins_cons.mp h)).2
      simp [hPoint]

/-- Words have no sign and no digits, so they are read as words. -/
theorem readLiteral_of_begins_isAlpha {value : Float} (h : Begins Char.isAlpha text)
    (hWord : takeWord text = some (value, rest)) : readLiteral text = .ok (value, rest) := by
  have hSign : takeSign text = (false, text) := by
    refine takeSign_append .absent (h.imp fun c hc => ?_)
    simp [ends, Char.isAlphanum, hc]
  have hMantissa : takeMantissa text = none := by
    refine takeMantissa_eq_none (h.imp fun c hc => ?_)
    simp [not_isDigit_of_isAlpha hc, ne_of_isAlpha hc (show '.'.isAlpha = false by decide)]
  rw [readLiteral, hSign]
  simp only [hMantissa, hWord]

theorem begins_isAlpha {w : Char} {word : List Char} (h : front.map Char.toLower = w :: word)
    (hLetter : w.isAlpha) (rest : List Char) : Begins Char.isAlpha (front ++ rest) :=
  begins_word h (fun _ hLower => isAlpha_of_toLower (hLower ▸ hLetter)) rest

/-- Reading finds the literal that stands there, unless what follows could continue it. -/
theorem readLiteral_append {value : Float} (h : Literal front value) (hRest : Begins ends rest) :
    readLiteral (front ++ rest) = .ok (value, rest) := by
  cases h with
  | decimal hSign hMantissa hExponent =>
      rw [readLiteral, List.append_assoc, List.append_assoc,
        takeSign_append hSign (hMantissa.begins _)]
      simp only [takeMantissa_append hMantissa (hExponent.begins hRest),
        takeExponent_append hExponent hRest]
      rfl
  | nan hWord =>
      refine readLiteral_of_begins_isAlpha ?_ (takeWord_nan hWord)
      exact begins_isAlpha hWord (by decide) rest
  | infinite hWord =>
      refine readLiteral_of_begins_isAlpha ?_ (takeWord_infinite hWord hRest)
      rcases hWord with hWord | hWord
      · exact begins_isAlpha hWord (by decide) rest
      · exact begins_isAlpha hWord (by decide) rest

/-- A literal begins with a character that could continue one, or with a sign. -/
theorem Literal.begins {value : Float} (h : Literal front value) (rest : List Char) :
    Begins (fun c => !ends c || c == '+' || c == '-') (front ++ rest) := by
  have hWord : ∀ text, Begins Char.isAlpha text →
      Begins (fun c => !ends c || c == '+' || c == '-') text := by
    intro text h
    refine h.imp fun c hc => ?_
    simp [ends, Char.isAlphanum, hc]
  cases h with
  | decimal hSign hMantissa hExponent =>
      cases hSign with
      | absent =>
          rw [List.nil_append, List.append_assoc]
          refine (hMantissa.begins _).imp fun c hc => ?_
          rw [hc, Bool.true_or, Bool.true_or]
      | plus => exact begins_cons.mpr (by decide)
      | minus => exact begins_cons.mpr (by decide)
  | nan hNan => exact hWord _ (begins_isAlpha hNan (by decide) rest)
  | infinite hInfinite =>
      rcases hInfinite with hInf | hInfinity
      · exact hWord _ (begins_isAlpha hInf (by decide) rest)
      · exact hWord _ (begins_isAlpha hInfinity (by decide) rest)

end Reading

end Decimal

end PointStyle
