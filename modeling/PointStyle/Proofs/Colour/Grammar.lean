import Mathlib.Data.List.DropRight
import PointStyle.Colour.Parser
import PointStyle.Proofs.Decimal.Grammar
import PointStyle.Proofs.Except

/-! The grammar of colours. The reader takes the first of its forms that fits and never goes back,
but the forms do not get in each other's way: it accepts just the texts that the grammar has. -/
namespace PointStyle

namespace Colour

open Decimal (Literal IsWord)

/-- A hexadecimal digit in either letter case, with its value. -/
def HexDigit (c : Char) (value : Nat) : Prop := "0123456789abcdef".toList[value]? = some c.toLower

/-- A channel of one or two hexadecimal digits; a single one stands for its doubling. -/
inductive HexChannel : Nat → List Char → Nat → Prop
  | single {c : Char} {x : Nat} (h : HexDigit c x) : HexChannel 1 [c] (16 * x + x)
  | double {c d : Char} {x y : Nat} (hHigh : HexDigit c x) (hLow : HexDigit d y) :
      HexChannel 2 [c, d] (16 * x + y)

def AreBlanks (text : List Char) : Prop := ∀ c ∈ text, Text.isBlank c

/-- Numbers that follow a first one, each after a comma with blanks around it. -/
inductive MoreNumbers : List Char → List Float → Prop
  | nil : MoreNumbers [] []
  | cons {before after number more : List Char} {x : Float} {xs : List Float}
      (hBefore : AreBlanks before) (hAfter : AreBlanks after) (hNumber : Literal number x)
      (hMore : MoreNumbers more xs) :
      MoreNumbers (before ++ ',' :: after ++ number ++ more) (x :: xs)

/-- The colour of three numbers, or of four with the alpha. -/
inductive OfNumbers : List Float → Colour → Prop
  | solid (r g b : Float) : OfNumbers [r, g, b] ⟨channel r, channel g, channel b, 1⟩
  | alpha (r g b a : Float) : OfNumbers [r, g, b, a] ⟨channel r, channel g, channel b, unitAlpha a⟩

/-- The texts of a colour, without blanks around them. -/
inductive Spells : List Char → Colour → Prop
  | hex {width x y z : Nat} {red green blue : List Char} (hRed : HexChannel width red x)
      (hGreen : HexChannel width green y) (hBlue : HexChannel width blue z) :
      Spells ('#' :: (red ++ green ++ blue))
        ⟨UInt8.ofNat x, UInt8.ofNat y, UInt8.ofNat z, singleOfRatio 255 255⟩
  | hexAlpha {width x y z w : Nat} {red green blue alpha : List Char}
      (hRed : HexChannel width red x) (hGreen : HexChannel width green y)
      (hBlue : HexChannel width blue z) (hAlpha : HexChannel width alpha w) :
      Spells ('#' :: (red ++ green ++ blue ++ alpha))
        ⟨UInt8.ofNat x, UInt8.ofNat y, UInt8.ofNat z, singleOfRatio w 255⟩
  | functional {word before after number more last : List Char} {x : Float} {xs : List Float}
      {colour : Colour} (hWord : IsWord "rgb" word ∨ IsWord "rgba" word)
      (hBefore : AreBlanks before)
      (hAfter : AreBlanks after) (hNumber : Literal number x) (hMore : MoreNumbers more xs)
      (hLast : AreBlanks last) (hColour : OfNumbers (x :: xs) colour) :
      Spells (word ++ before ++ '(' :: after ++ number ++ more ++ last ++ [')']) colour
  | name {letters : List Char} {name : String} {colour : Colour} (hLetters : IsWord name letters)
      (hNamed : (name, colour) ∈ named) : Spells letters colour

/-- A text without the blanks around it. -/
def trimBlanks (text : List Char) : List Char := (Text.dropBlanks text).rdropWhile Text.isBlank

section Blanks

variable {before rest : List Char}

/-- What holds of the four blanks holds of every blank. -/
theorem forall_isBlank {p : Char → Bool} (h : [' ', '\t', '\n', '\r'].all p) :
    ∀ c, Text.isBlank c → p c := by
  intro c hc
  refine List.all_eq_true.mp h c ?_
  simpa [Text.isBlank, or_assoc] using hc

theorem dropBlanks_append (hBefore : AreBlanks before) (rest : List Char) :
    Text.dropBlanks (before ++ rest) = Text.dropBlanks rest :=
  List.dropWhile_append_of_pos hBefore

theorem dropBlanks_of_begins (h : Begins (!Text.isBlank ·) rest) : Text.dropBlanks rest = rest := by
  cases rest with
  | nil => rfl
  | cons c rest => exact List.dropWhile_cons_of_neg (by simpa using begins_cons.mp h)

/-- What is left of a text follows the blanks that were dropped. -/
theorem append_of_dropBlanks {text : List Char} (h : Text.dropBlanks text = rest) :
    ∃ before, AreBlanks before ∧ text = before ++ rest := by
  subst h
  exact ⟨text.takeWhile Text.isBlank, fun c hc => List.mem_takeWhile_imp hc,
    List.takeWhile_append_dropWhile.symm⟩

/-- Nothing is left of a text of blanks, and of no other. -/
theorem dropBlanks_eq_nil_iff : Text.dropBlanks rest = [] ↔ AreBlanks rest :=
  List.dropWhile_eq_nil_iff

/-- What stands before the blanks at the end of a text is all that is left when it is trimmed. -/
theorem trimBlanks_eq {text core blanks : List Char} {last : Char}
    (hText : Text.dropBlanks text = core ++ [last] ++ blanks) (hBlanks : AreBlanks blanks)
    (hLast : Text.isBlank last = false) : trimBlanks text = core ++ [last] := by
  have hReverse : ∀ c ∈ blanks.reverse, Text.isBlank c := by simpa [AreBlanks] using hBlanks
  rw [trimBlanks, hText, List.rdropWhile, List.reverse_append,
    List.dropWhile_append_of_pos hReverse, List.reverse_append, List.reverse_singleton,
    List.singleton_append, List.dropWhile_cons_of_neg (by simp [hLast])]
  simp

/-- Dropping the blanks in front leaves those at the end. -/
theorem dropBlanks_eq_trimBlanks (text : List Char) :
    ∃ blanks, AreBlanks blanks ∧ Text.dropBlanks text = trimBlanks text ++ blanks := by
  refine ⟨(Text.dropBlanks text).rtakeWhile Text.isBlank, fun c hc => ?_, ?_⟩
  · exact List.mem_rtakeWhile_imp hc
  · exact (List.rdropWhile_append_rtakeWhile ..).symm

end Blanks

namespace Parser

section Hex

/-- A character is read as a hexadecimal digit just in case it is one. -/
theorem hexDigit?_eq_some_iff {c : Char} {value : Nat} :
    Text.hexDigit? c = some value ↔ HexDigit c value := by
  by_cases hAscii : c.toNat < 128
  · have hAll : ∀ n < 128,
        (∀ found ∈ Text.hexDigit? (Char.ofNat n), HexDigit (Char.ofNat n) found) ∧
          ((Char.ofNat n).toLower ∈ "0123456789abcdef".toList →
            (Text.hexDigit? (Char.ofNat n)).isSome) := by
      unfold HexDigit
      decide +kernel
    obtain ⟨hFound, hSome⟩ := hAll c.toNat hAscii
    rw [Char.ofNat_toNat] at hFound hSome
    refine ⟨hFound value, fun h => ?_⟩
    obtain ⟨found, hValue⟩ := Option.isSome_iff_exists.mp (hSome (List.mem_of_getElem? h))
    -- No digit stands twice in the table, so what is found is the value.
    have hSame := (hFound found hValue).trans h.symm
    have hBound := (List.getElem?_eq_some_iff.mp (hFound found hValue)).1
    rw [hValue, (List.getElem?_inj hBound (by decide)).mp hSame]
  · have hNone : Text.hexDigit? c = none := by
      simp only [Text.hexDigit?, Char.le_def, UInt32.le_iff_toNat_le, ← Char.toNat_val] at *
      grind
    have hLower : c.toLower = c := by
      refine dif_neg fun h => hAscii ?_
      have hUpper : c.toNat ≤ 'Z'.toNat := UInt32.le_iff_toNat_le.mp h.2
      exact Nat.lt_of_le_of_lt hUpper (by decide)
    have hDigits : "0123456789abcdef".toList.all (·.toNat < 128) := by decide
    refine iff_of_false (by simp [hNone]) fun h => ?_
    rw [HexDigit, hLower] at h
    exact hAscii (of_decide_eq_true (List.all_eq_true.mp hDigits c (List.mem_of_getElem? h)))

theorem leadingHex_blanks {blanks : List Char} (h : AreBlanks blanks) : leadingHex blanks = [] := by
  cases blanks with
  | nil => rfl
  | cons c rest =>
      have hNone := forall_isBlank (p := fun d => Text.hexDigit? d = none) (by decide) c
        (h c List.mem_cons_self)
      rw [leadingHex, of_decide_eq_true hNone]

theorem leadingHex_cons {c : Char} {value : Nat} (h : HexDigit c value) (rest : List Char) :
    leadingHex (c :: rest) = value :: leadingHex rest := by
  rw [leadingHex, hexDigit?_eq_some_iff.mpr h]

/-- The first value that is read is that of the first character. -/
theorem single_of_leadingHex {text : List Char} {value : Nat} {more : List Nat}
    (h : leadingHex text = value :: more) :
    ∃ c rest, text = c :: rest ∧ HexDigit c value ∧ leadingHex rest = more := by
  cases text with
  | nil => cases h
  | cons c text =>
      rw [leadingHex] at h
      split at h
      · rename_i first hFirst
        obtain ⟨rfl, hRest⟩ := List.cons.inj h
        exact ⟨c, text, rfl, hexDigit?_eq_some_iff.mp hFirst, hRest⟩
      · cases h

/-- The first two values that are read are those of a channel of two digits. -/
theorem double_of_leadingHex {text : List Char} {high low : Nat} {more : List Nat}
    (h : leadingHex text = high :: low :: more) :
    ∃ c d rest, text = c :: d :: rest ∧ HexChannel 2 [c, d] (16 * high + low) ∧
      leadingHex rest = more := by
  obtain ⟨c, rest, rfl, hHigh, h⟩ := single_of_leadingHex h
  obtain ⟨d, rest, rfl, hLow, h⟩ := single_of_leadingHex h
  exact ⟨c, d, rest, rfl, .double hHigh hLow, h⟩

theorem pair_eq (high low : Nat) : pair high low = UInt8.ofNat (16 * high + low) := by
  rw [pair, Nat.mul_comm]

theorem pairAlpha_eq (high low : Nat) :
    pairAlpha high low = singleOfRatio (16 * high + low) 255 := by
  rw [pairAlpha, Nat.mul_comm]

theorem rgb_eq (red green blue : UInt8) :
    rgb red green blue = ⟨red, green, blue, singleOfRatio 255 255⟩ := by
  rw [show singleOfRatio 255 255 = 1 by decide]
  rfl

/-- What is read as hexadecimal digits spells the colour. -/
theorem append_of_hex {text rest : List Char} {colour : Colour}
    (h : hex text = some (colour, rest)) :
    ∃ front, text = front ++ rest ∧ Spells front colour := by
  unfold hex at h
  split at h
  · rename_i digits
    unfold hexDigits at h
    simp only [pair_eq, pairAlpha_eq, rgb_eq] at h
    split at h
    · rename_i hHex
      cases h
      obtain ⟨r, r', _, rfl, hRed, hHex⟩ := double_of_leadingHex hHex
      obtain ⟨g, g', _, rfl, hGreen, hHex⟩ := double_of_leadingHex hHex
      obtain ⟨b, b', _, rfl, hBlue, hHex⟩ := double_of_leadingHex hHex
      obtain ⟨a, a', _, rfl, hAlpha, _⟩ := double_of_leadingHex hHex
      exact ⟨_, rfl, .hexAlpha hRed hGreen hBlue hAlpha⟩
    · rename_i hHex
      cases h
      obtain ⟨r, r', _, rfl, hRed, hHex⟩ := double_of_leadingHex hHex
      obtain ⟨g, g', _, rfl, hGreen, hHex⟩ := double_of_leadingHex hHex
      obtain ⟨b, b', _, rfl, hBlue, _⟩ := double_of_leadingHex hHex
      exact ⟨_, rfl, .hex hRed hGreen hBlue⟩
    · rename_i hHex
      cases h
      obtain ⟨r, _, rfl, hRed, hHex⟩ := single_of_leadingHex hHex
      obtain ⟨g, _, rfl, hGreen, hHex⟩ := single_of_leadingHex hHex
      obtain ⟨b, _, rfl, hBlue, hHex⟩ := single_of_leadingHex hHex
      obtain ⟨a, _, rfl, hAlpha, _⟩ := single_of_leadingHex hHex
      exact ⟨_, rfl, .hexAlpha (.single hRed) (.single hGreen) (.single hBlue) (.single hAlpha)⟩
    · rename_i hHex
      cases h
      obtain ⟨r, _, rfl, hRed, hHex⟩ := single_of_leadingHex hHex
      obtain ⟨g, _, rfl, hGreen, hHex⟩ := single_of_leadingHex hHex
      obtain ⟨b, _, rfl, hBlue, _⟩ := single_of_leadingHex hHex
      exact ⟨_, rfl, .hex (.single hRed) (.single hGreen) (.single hBlue)⟩
    · cases h
  · cases h

variable {width x y z w : Nat} {red green blue alpha blanks : List Char}

/-- A colour of three hexadecimal channels is read from a text that begins with it. -/
theorem hex_append (hRed : HexChannel width red x) (hGreen : HexChannel width green y)
    (hBlue : HexChannel width blue z) (hBlanks : AreBlanks blanks) :
    hex ('#' :: (red ++ green ++ blue) ++ blanks) =
      some (⟨UInt8.ofNat x, UInt8.ofNat y, UInt8.ofNat z, singleOfRatio 255 255⟩, blanks) := by
  cases hRed with
  | single r =>
      cases hGreen with
      | single g =>
          cases hBlue with
          | single b =>
              simp [hex, hexDigits, leadingHex_cons r, leadingHex_cons g, leadingHex_cons b,
                leadingHex_blanks hBlanks, pair_eq, rgb_eq]
  | double r r' =>
      cases hGreen with
      | double g g' =>
          cases hBlue with
          | double b b' =>
              simp [hex, hexDigits, leadingHex_cons r, leadingHex_cons r', leadingHex_cons g,
                leadingHex_cons g', leadingHex_cons b, leadingHex_cons b',
                leadingHex_blanks hBlanks,
                pair_eq, rgb_eq]

/-- A colour of three hexadecimal channels and an alpha is read from a text that begins with it. -/
theorem hex_append_alpha (hRed : HexChannel width red x) (hGreen : HexChannel width green y)
    (hBlue : HexChannel width blue z) (hAlpha : HexChannel width alpha w)
    (hBlanks : AreBlanks blanks) :
    hex ('#' :: (red ++ green ++ blue ++ alpha) ++ blanks) =
      some (⟨UInt8.ofNat x, UInt8.ofNat y, UInt8.ofNat z, singleOfRatio w 255⟩, blanks) := by
  cases hRed with
  | single r =>
      cases hGreen with
      | single g =>
          cases hBlue with
          | single b =>
              cases hAlpha with
              | single a =>
                  simp [hex, hexDigits, leadingHex_cons r, leadingHex_cons g, leadingHex_cons b,
                    leadingHex_cons a, leadingHex_blanks hBlanks, pair_eq, pairAlpha_eq]
  | double r r' =>
      cases hGreen with
      | double g g' =>
          cases hBlue with
          | double b b' =>
              cases hAlpha with
              | double a a' =>
                  simp [hex, hexDigits, leadingHex_cons r, leadingHex_cons r', leadingHex_cons g,
                    leadingHex_cons g', leadingHex_cons b, leadingHex_cons b', leadingHex_cons a,
                    leadingHex_cons a', pair_eq, pairAlpha_eq]

/-- A text that begins with a letter is not read as hexadecimal digits after a hash mark. -/
theorem hex_eq_none {text : List Char} (h : Begins Char.isAlpha text) : hex text = none := by
  unfold hex
  split
  · exact absurd (begins_cons.mp h) (by decide)
  · rfl

theorem isBlank_of_hexDigit {c : Char} {value : Nat} (h : HexDigit c value) :
    Text.isBlank c = false := by
  refine Bool.eq_false_iff.mpr fun hBlank => ?_
  have hNone : leadingHex [c] = [] := leadingHex_blanks (by simpa [AreBlanks] using hBlank)
  rw [leadingHex_cons h] at hNone
  cases hNone

theorem last_of_hexChannel {text : List Char} (h : HexChannel width text x) :
    ∃ core last, text = core ++ [last] ∧ Text.isBlank last = false := by
  cases h with
  | single hDigit => exact ⟨[], _, rfl, isBlank_of_hexDigit hDigit⟩
  | double hHigh hLow => exact ⟨[_], _, rfl, isBlank_of_hexDigit hLow⟩

end Hex

section Functional

variable {text front rest before after last : List Char}

/-- If blanks and the character after them are of a kind, then so is the beginning of the text. -/
theorem begins_blanks {c : Char} {p : Char → Bool} (hBlanks : AreBlanks before)
    (hBlank : ∀ c, Text.isBlank c → p c) (hNext : p c) (rest : List Char) :
    Begins p (before ++ c :: rest) := by
  cases before with
  | nil => exact begins_cons.mpr hNext
  | cons d before => exact begins_cons.mpr (hBlank d (hBlanks d List.mem_cons_self))

/-- A mark is read together with the blanks around it. -/
theorem mark_append {c : Char} (hMark : Text.isBlank c = false) (hBefore : AreBlanks before)
    (rest : List Char) : mark c (before ++ c :: rest) = some (Text.dropBlanks rest) := by
  have hDrop : Text.dropBlanks (before ++ c :: rest) = c :: rest := by
    rw [dropBlanks_append hBefore]
    exact dropBlanks_of_begins (begins_cons.mpr (by simp [hMark]))
  rw [mark, hDrop]
  simp

/-- Another character in the place of a mark is not read. -/
theorem mark_eq_none {c d : Char} (hMark : Text.isBlank d = false) (hOther : d ≠ c)
    (hBefore : AreBlanks before) (rest : List Char) : mark c (before ++ d :: rest) = none := by
  have hDrop : Text.dropBlanks (before ++ d :: rest) = d :: rest := by
    rw [dropBlanks_append hBefore]
    exact dropBlanks_of_begins (begins_cons.mpr (by simp [hMark]))
  rw [mark, hDrop]
  simp [hOther]

/-- Where a mark was read there is one, with blanks around it. -/
theorem append_of_mark {c : Char} (h : mark c text = some rest) :
    ∃ before after, AreBlanks before ∧ AreBlanks after ∧ text = before ++ c :: after ++ rest := by
  unfold mark at h
  split at h
  · rename_i d tail hDrop
    split at h
    · rename_i hMark
      subst hMark
      obtain ⟨before, hBefore, rfl⟩ := append_of_dropBlanks hDrop
      obtain ⟨after, hAfter, rfl⟩ := append_of_dropBlanks (Option.some.inj h)
      exact ⟨before, after, hBefore, hAfter, by simp⟩
    · cases h
  · cases h

/-- A literal is read as a number if nothing follows that could continue it. -/
theorem number_append {x : Float} (h : Literal front x) (hRest : Begins Decimal.ends rest) :
    number (front ++ rest) = .ok (x, rest) := by
  rw [number, Decimal.readLiteral_append h hRest]

/-- Where a number was read there is a literal. -/
theorem append_of_number {x : Float} (h : number text = .ok (x, rest)) :
    ∃ front, text = front ++ rest ∧ Literal front x := by
  unfold number at h
  split at h
  · rename_i answer hRead
    cases h
    exact Decimal.append_of_readLiteral hRead
  · cases h
  · cases h

/-- Each of the numbers takes up a comma at least, so there are no more of them than characters. -/
theorem length_le_of_moreNumbers {xs : List Float} (h : MoreNumbers text xs) :
    xs.length ≤ text.length := by
  induction h with
  | nil => exact Nat.le_refl 0
  | cons hBefore hAfter hNumber hMore ih =>
      simp only [List.length_cons, List.length_append]
      omega

/-- Where numbers were read there are literals, each after a comma. -/
theorem append_of_moreNumbers {fuel : Nat} {xs : List Float}
    (h : moreNumbers fuel text = .ok (xs, rest)) :
    ∃ more, text = more ++ rest ∧ MoreNumbers more xs := by
  induction fuel generalizing text xs with
  | zero =>
      cases h
      exact ⟨[], rfl, .nil⟩
  | succ fuel ih =>
      rw [moreNumbers] at h
      split at h
      · cases h
        exact ⟨[], rfl, .nil⟩
      · rename_i afterComma hMark
        split at h
        -- A comma that no number follows is left unread.
        · cases h
          exact ⟨[], rfl, .nil⟩
        · cases h
        · rename_i x afterNumber hNumber
          obtain ⟨⟨ys, tail⟩, hRest, h⟩ := bind_eq_ok h
          cases h
          obtain ⟨before, after, hBefore, hAfter, rfl⟩ := append_of_mark hMark
          obtain ⟨number, rfl, hLiteral⟩ := append_of_number hNumber
          obtain ⟨more, rfl, hMore⟩ := ih hRest
          exact ⟨_, by simp, .cons hBefore hAfter hLiteral hMore⟩

/-- A literal does not begin with a blank. -/
theorem begins_literal {x : Float} (h : Literal front x) (rest : List Char) :
    Begins (!Text.isBlank ·) (front ++ rest) := by
  refine (h.begins rest).imp fun c hc => ?_
  rw [Bool.not_eq_true']
  refine Bool.eq_false_iff.mpr fun hBlank => ?_
  have hNone :=
    forall_isBlank (p := fun d => !(!Decimal.ends d || d == '+' || d == '-')) (by decide) c
    hBlank
  simp only [hc, Bool.not_true, Bool.false_eq_true] at hNone

/-- What follows a number in a list cannot continue it. -/
theorem begins_moreNumbers {more : List Char} {xs : List Float} (hMore : MoreNumbers more xs)
    (hLast : AreBlanks last) (rest : List Char) :
    Begins Decimal.ends (more ++ (last ++ ')' :: rest)) := by
  cases hMore with
  | nil => exact begins_blanks hLast (forall_isBlank (by decide)) (by decide) rest
  | cons hBefore hAfter hNumber hMore =>
      simp only [List.append_assoc, List.cons_append]
      exact begins_blanks hBefore (forall_isBlank (by decide)) (by decide) _

/-- Literals after commas are all read up to the closing bracket, given as much fuel as there are
literals. -/
theorem moreNumbers_append {fuel : Nat} {more : List Char} {xs : List Float}
    (hMore : MoreNumbers more xs) (hFuel : xs.length ≤ fuel) (hLast : AreBlanks last)
    (rest : List Char) :
    moreNumbers fuel (more ++ (last ++ ')' :: rest)) = .ok (xs, last ++ ')' :: rest) := by
  -- The induction is on the list that stands there; each of its numbers uses up one step.
  induction hMore generalizing fuel with
  | nil =>
      cases fuel with
      | zero => rfl
      | succ fuel => rw [moreNumbers, List.nil_append, mark_eq_none (by decide) (by decide) hLast]
  | cons hBefore hAfter hNumber hMore ih =>
      cases fuel with
      | zero => simp at hFuel
      | succ fuel =>
          simp only [List.append_assoc, List.cons_append]
          rw [moreNumbers, mark_append (by decide) hBefore, dropBlanks_append hAfter,
            dropBlanks_of_begins (begins_literal hNumber _)]
          simp only [number_append hNumber (begins_moreNumbers hMore hLast rest)]
          rw [ih (Nat.le_of_succ_le_succ hFuel)]
          rfl

/-- Either word of the functional form is read in front of the opening bracket. -/
theorem functionWord_append {word : List Char} (hWord : IsWord "rgb" word ∨ IsWord "rgba" word)
    (hBefore : AreBlanks before) (rest : List Char) :
    functionWord (word ++ (before ++ '(' :: rest)) = some (before ++ '(' :: rest) := by
  rcases hWord with hShort | hLong
  · have hNext : Begins (·.toLower ≠ 'a') (before ++ '(' :: rest) :=
      begins_blanks hBefore (forall_isBlank (by decide)) (by decide) rest
    have hNotLong : Decimal.dropWord "rgba".toList (word ++ (before ++ '(' :: rest)) = none :=
      (Decimal.dropWord_append hShort ['a'] _).trans (Decimal.dropWord_eq_none hNext)
    rw [functionWord, hNotLong, Decimal.dropWord_word hShort]
  · rw [functionWord, Decimal.dropWord_word hLong]

/-- Where the word of the functional form was read it stands. -/
theorem append_of_functionWord (h : functionWord text = some rest) :
    ∃ word, (IsWord "rgb" word ∨ IsWord "rgba" word) ∧ text = word ++ rest := by
  unfold functionWord at h
  split at h
  · rename_i hLong
    cases h
    obtain ⟨word, rfl, hWord⟩ := Decimal.append_of_dropWord hLong
    exact ⟨word, .inr hWord, rfl⟩
  · obtain ⟨word, rfl, hWord⟩ := Decimal.append_of_dropWord h
    exact ⟨word, .inl hWord, rfl⟩

/-- One or more literals separated by commas are read up to the closing bracket. -/
theorem numbers_append {number more : List Char} {x : Float} {xs : List Float}
    (hNumber : Literal number x) (hMore : MoreNumbers more xs) (hLast : AreBlanks last)
    (rest : List Char) :
    numbers (number ++ (more ++ (last ++ ')' :: rest))) = .ok (x :: xs, last ++ ')' :: rest) := by
  have hFuel : xs.length ≤ (more ++ (last ++ ')' :: rest)).length := by
    have hLength := length_le_of_moreNumbers hMore
    rw [List.length_append]
    omega
  rw [numbers, number_append hNumber (begins_moreNumbers hMore hLast rest)]
  change (moreNumbers (more ++ (last ++ ')' :: rest)).length _ >>= _) = _
  rw [moreNumbers_append hMore hFuel hLast]
  rfl

/-- Where numbers were read there are literals separated by commas. -/
theorem append_of_numbers {xs : List Float} (h : numbers text = .ok (xs, rest)) :
    ∃ number more x ys, xs = x :: ys ∧ Literal number x ∧ MoreNumbers more ys ∧
      text = number ++ more ++ rest := by
  obtain ⟨⟨x, middle⟩, hNumber, h⟩ := bind_eq_ok h
  obtain ⟨⟨ys, tail⟩, hMore, h⟩ := bind_eq_ok h
  cases h
  obtain ⟨number, rfl, hLiteral⟩ := append_of_number hNumber
  obtain ⟨more, rfl, hMoreNumbers⟩ := append_of_moreNumbers hMore
  exact ⟨number, more, x, ys, rfl, hLiteral, hMoreNumbers, by simp⟩

/-- Three or four numbers make a colour, and no other number of them does. -/
theorem ofNumbers_eq_ok_iff {xs : List Float} {colour : Colour} :
    ofNumbers xs = .ok colour ↔ OfNumbers xs colour := by
  constructor
  · intro h
    unfold ofNumbers at h
    split at h
    · cases h
      exact .solid _ _ _
    · cases h
      exact .alpha _ _ _ _
    · cases h
  · intro h
    cases h <;> rfl

/-- A colour in functional form is read from a text that begins with it. -/
theorem functional_append {word number more : List Char} {x : Float} {xs : List Float}
    {colour : Colour} (hWord : IsWord "rgb" word ∨ IsWord "rgba" word) (hBefore : AreBlanks before)
    (hAfter : AreBlanks after) (hNumber : Literal number x) (hMore : MoreNumbers more xs)
    (hLast : AreBlanks last) (hColour : OfNumbers (x :: xs) colour) (rest : List Char) :
    functional (word ++ before ++ '(' :: after ++ number ++ more ++ last ++ [')'] ++ rest) =
      .ok (colour, Text.dropBlanks rest) := by
  simp only [List.append_assoc, List.cons_append, List.nil_append]
  rw [functional, functionWord_append hWord hBefore]
  simp only [orMismatch, bind, Except.bind, pure, Except.pure, dropBlanks_append hAfter,
    mark_append (show Text.isBlank '(' = false by decide) hBefore,
    dropBlanks_of_begins (begins_literal hNumber _), numbers_append hNumber hMore hLast rest,
    mark_append (show Text.isBlank ')' = false by decide) hLast, ofNumbers_eq_ok_iff.mpr hColour]

theorem eq_some_of_orMismatch {α : Type} {option : Option α} {a : α}
    (h : orMismatch option = .ok a) : option = some a := by
  cases option with
  | none => cases h
  | some b =>
      cases h
      rfl

/-- What is read as the functional form spells the colour, but for blanks after it. -/
theorem append_of_functional {colour : Colour} (h : functional text = .ok (colour, rest)) :
    ∃ front blanks, AreBlanks blanks ∧ text = front ++ (blanks ++ rest) ∧ Spells front colour := by
  obtain ⟨afterWord, hWord, h⟩ := bind_eq_ok h
  obtain ⟨afterOpen, hOpen, h⟩ := bind_eq_ok h
  obtain ⟨⟨xs, afterNumbers⟩, hNumbers, h⟩ := bind_eq_ok h
  obtain ⟨afterClose, hClose, h⟩ := bind_eq_ok h
  obtain ⟨_, hColour, h⟩ := bind_eq_ok h
  cases h
  obtain ⟨word, hFunction, rfl⟩ := append_of_functionWord (eq_some_of_orMismatch hWord)
  obtain ⟨before, after, hBefore, hAfter, rfl⟩ := append_of_mark (eq_some_of_orMismatch hOpen)
  obtain ⟨number, more, x, ys, rfl, hNumber, hMore, rfl⟩ := append_of_numbers hNumbers
  obtain ⟨last, blanks, hLast, hBlanks, rfl⟩ := append_of_mark (eq_some_of_orMismatch hClose)
  refine ⟨word ++ before ++ '(' :: after ++ number ++ more ++ last ++ [')'], blanks, hBlanks,
    by simp, ?_⟩
  exact .functional hFunction hBefore hAfter hNumber hMore hLast (ofNumbers_eq_ok_iff.mp hColour)

end Functional

section Name

variable {text letters blanks rest : List Char}

/-- In a table without repetitions, looking up a key finds its entry. -/
theorem lookup_eq_some_iff {α : Type} {table : List (String × α)}
    (hNames : (table.map Prod.fst).Nodup) {key : String} {value : α} :
    table.lookup key = some value ↔ (key, value) ∈ table := by
  induction table with
  | nil => simp
  | cons entry table ih =>
      obtain ⟨name, own⟩ := entry
      obtain ⟨hNew, hRest⟩ := List.nodup_cons.mp hNames
      by_cases hKey : key = name
      · subst hKey
        have hAbsent : (key, value) ∉ table := fun h => hNew (List.mem_map.mpr ⟨_, h, rfl⟩)
        simp [hAbsent, eq_comm]
      · have hOther : (key == name) = false := beq_eq_false_iff_ne.mpr hKey
        simp [List.lookup_cons, hOther, ih hRest, hKey]

/-- A name has a colour just in case it is listed with that colour. -/
theorem ofName?_eq_some_iff {name : String} {colour : Colour} :
    ofName? name = some colour ↔ (name, colour) ∈ named :=
  lookup_eq_some_iff (by decide +kernel)

/-- The names have letters only, and none of them begins like the functional form. -/
theorem letters_of_named {name : String} {colour : Colour} (h : (name, colour) ∈ named) :
    3 ≤ name.toList.length ∧ name.toList.all Char.isAlpha ∧ name.toList.take 3 ≠ "rgb".toList := by
  have hNames : ∀ name ∈ named.map Prod.fst, 3 ≤ name.toList.length ∧
      name.toList.all Char.isAlpha ∧ name.toList.take 3 ≠ "rgb".toList := by decide +kernel
  exact hNames name (List.mem_map.mpr ⟨_, h, rfl⟩)

variable {name : String} {colour : Colour}

/-- The named colours are written in letters only. -/
theorem isAlpha_of_isWord (hLetters : IsWord name letters) (hNamed : (name, colour) ∈ named) :
    ∀ c ∈ letters, c.isAlpha := by
  intro c hc
  refine isAlpha_of_toLower (List.all_eq_true.mp (letters_of_named hNamed).2.1 _ ?_)
  rw [← hLetters]
  exact List.mem_map_of_mem hc

theorem ne_nil_of_isWord (hLetters : IsWord name letters) (hNamed : (name, colour) ∈ named) :
    letters ≠ [] := by
  rintro rfl
  have hLength := (letters_of_named hNamed).1
  rw [← hLetters] at hLength
  simp at hLength

theorem begins_isAlpha_of_isWord (hLetters : IsWord name letters) (hNamed : (name, colour) ∈ named)
    (rest : List Char) : Begins Char.isAlpha (letters ++ rest) := by
  obtain ⟨c, tail, rfl⟩ := List.exists_cons_of_ne_nil (ne_nil_of_isWord hLetters hNamed)
  exact begins_cons.mpr (isAlpha_of_isWord hLetters hNamed c List.mem_cons_self)

theorem begins_not_isAlpha (hBlanks : AreBlanks blanks) : Begins (!Char.isAlpha ·) blanks := by
  intro c hc
  exact forall_isBlank (p := (!Char.isAlpha ·)) (by decide) c (hBlanks c (List.mem_of_mem_head? hc))

/-- A named colour is read from a text that begins with it, if only blanks follow. -/
theorem name_append (hLetters : IsWord name letters) (hNamed : (name, colour) ∈ named)
    (hBlanks : AreBlanks blanks) : Parser.name (letters ++ blanks) = .ok (colour, blanks) := by
  have hSpan : (letters ++ blanks).span Char.isAlpha = (letters, blanks) :=
    span_append (isAlpha_of_isWord hLetters hNamed) (begins_not_isAlpha hBlanks)
  have hFound : ofName? (String.ofList (letters.map Char.toLower)) = some colour := by
    rw [hLetters, String.ofList_toList]
    exact ofName?_eq_some_iff.mpr hNamed
  rw [Parser.name, hSpan]
  obtain ⟨c, tail, rfl⟩ := List.exists_cons_of_ne_nil (ne_nil_of_isWord hLetters hNamed)
  simp only [hFound]

/-- Where a named colour was read its name stands. -/
theorem append_of_name (h : Parser.name text = .ok (colour, rest)) :
    ∃ front, text = front ++ rest ∧ Spells front colour := by
  unfold Parser.name at h
  split at h
  · cases h
  · rename_i letters tail _ hSpan
    split at h
    · rename_i found hFound
      cases h
      refine ⟨letters, (append_of_span hSpan).1, ?_⟩
      exact .name (String.toList_ofList).symm (ofName?_eq_some_iff.mp hFound)
    · cases h

/-- No name is taken for the functional form. -/
theorem functional_name (hLetters : IsWord name letters) (hNamed : (name, colour) ∈ named)
    (rest : List Char) : functional (letters ++ rest) = .error .mismatch := by
  obtain ⟨hLength, -, hOther⟩ := letters_of_named hNamed
  have hNone : functionWord (letters ++ rest) = none := by
    refine Option.eq_none_iff_forall_ne_some.mpr fun tail h => hOther ?_
    -- The word would have to lie within the letters, as every name has three at least.
    obtain ⟨word, hWord, hText⟩ := append_of_functionWord h
    have hStart : (word.take 3).map Char.toLower = "rgb".toList := by
      rw [List.map_take]
      rcases hWord with hWord | hWord
      · rw [hWord]
        rfl
      · rw [hWord]
        rfl
    have hLong : 3 ≤ word.length := by
      have hTake := congrArg List.length hStart
      simp at hTake
      omega
    have hLetterCount : 3 ≤ letters.length := by
      rwa [← hLetters, List.length_map] at hLength
    have hTake := congrArg (List.take 3) hText
    rw [List.take_append_of_le_length hLetterCount, List.take_append_of_le_length hLong] at hTake
    rw [← hLetters, ← List.map_take, hTake, hStart]
  rw [functional, hNone]
  rfl

end Name

section Whole

variable {text front blanks rest : List Char} {colour : Colour}

/-- Where a colour was read there is a form that spells it, and perhaps blanks after it. -/
theorem append_of_colour (h : Parser.colour text = .ok (colour, rest)) :
    ∃ front blanks, AreBlanks blanks ∧ text = front ++ (blanks ++ rest) ∧ Spells front colour := by
  unfold Parser.colour at h
  split at h
  · rename_i hHex
    cases h
    obtain ⟨front, hText, hSpells⟩ := append_of_hex hHex
    exact ⟨front, [], by simp [AreBlanks], hText, hSpells⟩
  · split at h
    · rename_i hFunctional
      cases h
      exact append_of_functional hFunctional
    · cases h
    · obtain ⟨front, hText, hSpells⟩ := append_of_name h
      exact ⟨front, [], by simp [AreBlanks], hText, hSpells⟩

/-- A form that spells a colour is read as that colour, whatever other forms are tried before it. -/
theorem colour_append (h : Spells front colour) (hBlanks : AreBlanks blanks) :
    ∃ rest, AreBlanks rest ∧ Parser.colour (front ++ blanks) = .ok (colour, rest) := by
  cases h with
  | hex hRed hGreen hBlue =>
      refine ⟨blanks, hBlanks, ?_⟩
      rw [Parser.colour, hex_append hRed hGreen hBlue hBlanks]
  | hexAlpha hRed hGreen hBlue hAlpha =>
      refine ⟨blanks, hBlanks, ?_⟩
      rw [Parser.colour, hex_append_alpha hRed hGreen hBlue hAlpha hBlanks]
  | functional hWord hBefore hAfter hNumber hMore hLast hColour =>
      refine ⟨Text.dropBlanks blanks, ?_, ?_⟩
      · rw [dropBlanks_eq_nil_iff.mpr hBlanks]
        exact nofun
      · rw [Parser.colour, hex_eq_none,
          functional_append hWord hBefore hAfter hNumber hMore hLast hColour]
        simp only [List.append_assoc]
        rcases hWord with hWord | hWord
        · exact Decimal.begins_isAlpha hWord (by decide) _
        · exact Decimal.begins_isAlpha hWord (by decide) _
  | name hLetters hNamed =>
      refine ⟨blanks, hBlanks, ?_⟩
      rw [Parser.colour, hex_eq_none (begins_isAlpha_of_isWord hLetters hNamed _),
        functional_name hLetters hNamed]
      exact name_append hLetters hNamed hBlanks

/-- The texts of a colour end in a hexadecimal digit, a bracket or a letter. -/
theorem last_of_spells (h : Spells front colour) :
    ∃ core last, front = core ++ [last] ∧ Text.isBlank last = false := by
  cases h with
  | hex hRed hGreen hBlue =>
      obtain ⟨core, last, rfl, hLast⟩ := last_of_hexChannel hBlue
      exact ⟨_, last, by rw [← List.append_assoc, ← List.cons_append], hLast⟩
  | hexAlpha hRed hGreen hBlue hAlpha =>
      obtain ⟨core, last, rfl, hLast⟩ := last_of_hexChannel hAlpha
      exact ⟨_, last, by rw [← List.append_assoc, ← List.cons_append], hLast⟩
  | functional => exact ⟨_, ')', rfl, by decide⟩
  | name hLetters hNamed =>
      have hNonempty := ne_nil_of_isWord hLetters hNamed
      refine ⟨_, _, (List.dropLast_append_getLast hNonempty).symm, ?_⟩
      have hAlpha := isAlpha_of_isWord hLetters hNamed _ (List.getLast_mem hNonempty)
      refine Bool.eq_false_iff.mpr fun hBlank => ?_
      have hNone := forall_isBlank (p := (!Char.isAlpha ·)) (by decide) _ hBlank
      simp [hAlpha] at hNone

/-- A colour makes up a whole text just in case the text spells it, but for blanks around it. -/
theorem whole_eq_ok_iff : whole text = .ok colour ↔ Spells (trimBlanks text) colour := by
  constructor
  · intro h
    unfold whole at h
    split at h
    · cases h
    · rename_i rest hColour
      split at h
      · rename_i hRest
        cases h
        obtain ⟨front, blanks, hBlanks, hText, hSpells⟩ := append_of_colour hColour
        obtain ⟨core, last, rfl, hLast⟩ := last_of_spells hSpells
        -- Only the functional form takes blanks after it, but blanks are all that can be left.
        have hTail : AreBlanks (blanks ++ rest) := by
          intro c hc
          rcases List.mem_append.mp hc with hc | hc
          · exact hBlanks c hc
          · exact dropBlanks_eq_nil_iff.mp hRest c hc
        rwa [trimBlanks_eq hText hTail hLast]
      · cases h
  · intro h
    obtain ⟨blanks, hBlanks, hText⟩ := dropBlanks_eq_trimBlanks text
    obtain ⟨rest, hRest, hColour⟩ := colour_append h hBlanks
    rw [whole, hText, hColour]
    simp only [dropBlanks_eq_nil_iff.mpr hRest]

end Whole

end Parser

/-- A text is read as a colour just in case the grammar spells the colour so, but for blanks around
it. -/
theorem parse_eq_ok_iff_spells (input : String) (colour : Colour) :
    parse input = .ok colour ↔ Spells (trimBlanks input.toList) colour := by
  rw [← Parser.whole_eq_ok_iff, parse]
  cases Parser.whole input.toList with
  | error fault => simp [Except.mapError]
  | ok found => simp [Except.mapError]

end Colour

end PointStyle
