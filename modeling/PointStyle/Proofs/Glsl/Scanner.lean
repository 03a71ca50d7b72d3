import Mathlib.Data.List.SplitBy
import PointStyle.Proofs.Glsl.Grammar

/-! From text to tokens. A text is cut between any two characters that do not belong to one lexeme;
lexemes are as long as they can be, so `--` is no lexeme of an expression and `1.0x` is none at
all. Texts that are put side by side are read side by side unless their ends join. -/
namespace PointStyle

namespace Glsl

def isWordChar (c : Char) : Bool :=
  c.isAlphanum || c == '_'

/-- The characters of names and numerals. -/
def isLexemeChar (c : Char) : Bool :=
  isWordChar c || c == '.'

/-- Whether two neighbouring characters belong to one lexeme. -/
def joins (first second : Char) : Bool :=
  (isLexemeChar first && isLexemeChar second) ||
    (second == '=' && ['=', '!', '<', '>', '+', '-', '*', '/'].contains first) ||
    (first == second && ['&', '|', '<', '>', '+', '-'].contains first)

/-- A name starts with a letter or an underscore. -/
def isWord : List Char → Bool
  | [] => false
  | c :: rest => !c.isDigit && (c :: rest).all isWordChar

/-- A numeral starts with a digit and has a point at most once. -/
def isNumeral : List Char → Bool
  | [] => false
  | c :: rest => c.isDigit && rest.all (fun d => d.isDigit || d == '.') && rest.count '.' ≤ 1

def BinaryOperator.all : List BinaryOperator :=
  [.multiply, .divide, .add, .subtract, .less, .lessOrEqual, .greater, .greaterOrEqual, .equal,
   .notEqual, .and, .or]

def leaf? (lexeme : List Char) : Option Leaf :=
  if isNumeral lexeme then some (.numeral (String.ofList lexeme))
  else if lexeme = ['t', 'r', 'u', 'e'] then some (.truth true)
  else if lexeme = ['f', 'a', 'l', 's', 'e'] then some (.truth false)
  else if isWord lexeme then some (.name (String.ofList lexeme))
  else none

/-- The token of a lexeme; a blank has none. -/
def lex : List Char → Option (List Token)
  | [' '] => some []
  | ['('] => some [.opening]
  | [')'] => some [.closing]
  | [','] => some [.comma]
  | ['?'] => some [.question]
  | [':'] => some [.colon]
  | ['!'] => some [.not]
  | lexeme =>
    match BinaryOperator.all.find? (·.symbol.toList = lexeme) with
    | some operator => some [.operator operator]
    | none => (leaf? lexeme).map fun a => [.leaf a]

/-- The tokens of a text. -/
def scan (text : String) : Option (List Token) :=
  ((text.toList.splitBy joins).mapM lex).map List.flatten

/-- Two texts whose ends do not join. -/
def Apart (first second : String) : Prop :=
  ∀ x ∈ first.toList.getLast?, ∀ y ∈ second.toList.head?, joins x y = false

/-- Two texts that do not join are scanned one after the other. -/
theorem scan_append {first second : String} {tokens others : List Token}
    (hApart : Apart first second) (hFirst : scan first = some tokens)
    (hSecond : scan second = some others) : scan (first ++ second) = some (tokens ++ others) := by
  unfold scan at *
  obtain ⟨lexed, hLexed, rfl⟩ := Option.map_eq_some_iff.mp hFirst
  obtain ⟨lexed', hLexed', rfl⟩ := Option.map_eq_some_iff.mp hSecond
  rw [String.toList_append, List.splitBy_append hApart, List.mapM_append, hLexed, hLexed']
  exact congrArg some List.flatten_append

/-- A text whose characters all join is one lexeme. -/
theorem scan_lexeme {text : String} {tokens : List Token} (hNonempty : text.toList ≠ [])
    (hChain : text.toList.IsChain fun x y => joins x y) (hLex : lex text.toList = some tokens) :
    scan text = some tokens := by
  rw [scan, List.splitBy_of_isChain hNonempty hChain, List.mapM_cons, hLex]
  exact congrArg some (List.append_nil tokens)

/-- Characters that never join with a neighbour. -/
def isSolitary (c : Char) : Bool :=
  [' ', '(', ')', ',', '?', ':'].contains c

theorem joins_of_isSolitary {c : Char} (h : isSolitary c) (other : Char) :
    joins c other = false ∧ joins other c = false := by
  rw [isSolitary, List.contains_iff_mem] at h
  simp only [List.mem_cons, List.not_mem_nil, or_false] at h
  have hLexeme : isLexemeChar c = false := by
    rcases h with rfl | rfl | rfl | rfl | rfl | rfl <;> decide
  rcases h with rfl | rfl | rfl | rfl | rfl | rfl <;> simp [joins, hLexeme] <;> grind

/-- A text that begins with a solitary character stands apart from what comes before. -/
theorem apart_of_isSolitary_right (first : String) {second : String}
    (h : ∀ c ∈ second.toList.head?, isSolitary c) : Apart first second :=
  fun x _ y hy => (joins_of_isSolitary (h y hy) x).2

/-- A text that ends in a solitary character stands apart from what follows. -/
theorem apart_of_isSolitary_left {first : String} (second : String)
    (h : ∀ c ∈ first.toList.getLast?, isSolitary c) : Apart first second :=
  fun x hx y _ => (joins_of_isSolitary (h x hx) y).1

/-- Neither an operator nor a sign starts like a name or a numeral. -/
theorem lex_eq_leaf? {c : Char} {rest : List Char} (h : isLexemeChar c) :
    lex (c :: rest) = (leaf? (c :: rest)).map fun a => [.leaf a] := by
  have hOperator : BinaryOperator.all.find? (·.symbol.toList = c :: rest) = none := by
    refine List.find?_eq_none.mpr fun operator _ hSymbol => ?_
    have hHead := congrArg List.head? (of_decide_eq_true hSymbol)
    cases operator <;> cases hHead <;> exact absurd h (by decide)
  unfold lex
  split
  case h_8 => rw [hOperator]
  all_goals
    rename_i hEq
    cases hEq
    exact absurd h (by decide)

/-- Characters of names and numerals all belong together. -/
theorem scan_leaf {text : String} {a : Leaf} (hNonempty : text.toList ≠ [])
    (hChars : ∀ c ∈ text.toList, isLexemeChar c) (hLeaf : leaf? text.toList = some a) :
    scan text = some [.leaf a] := by
  refine scan_lexeme hNonempty ?_ ?_
  · refine List.Pairwise.isChain (List.pairwise_of_forall_mem_list fun x hx y hy => ?_)
    simp [joins, hChars x hx, hChars y hy]
  · obtain ⟨c, rest, hText⟩ := List.exists_cons_of_ne_nil hNonempty
    rw [hText] at hChars hLeaf ⊢
    rw [lex_eq_leaf? (hChars c (List.mem_cons_self ..)), hLeaf]
    rfl

/-- A numeral is scanned as one leaf. -/
theorem scan_numeral {text : String} (h : isNumeral text.toList) :
    scan text = some [.leaf (.numeral text)] := by
  refine scan_leaf ?_ ?_ ?_
  · intro hNil
    rw [hNil] at h
    cases h
  · intro c hc
    cases hText : text.toList with
    | nil =>
        rw [hText] at hc
        cases hc
    | cons first rest =>
        rw [hText] at hc h
        simp only [isNumeral, Bool.and_eq_true, List.all_eq_true, Bool.or_eq_true] at h
        have hDigit : ∀ d : Char, d.isDigit = true → isLexemeChar d = true := fun d hd => by
          simp [isLexemeChar, isWordChar, Char.isAlphanum, hd]
        rcases List.mem_cons.mp hc with rfl | hc
        · exact hDigit c h.1.1
        · rcases h.1.2 c hc with hd | hd
          · exact hDigit c hd
          · simp [isLexemeChar, hd]
  · rw [leaf?, if_pos h, String.ofList_toList]

/-- A name that is not one of the truth values. -/
structure IsName (text : String) : Prop where
  isWord : isWord text.toList = true
  ne_true : text ≠ "true"
  ne_false : text ≠ "false"

/-- A name begins with a character of words that is not a digit. -/
theorem IsName.exists_cons {text : String} (h : IsName text) :
    ∃ c rest, text.toList = c :: rest ∧ c.isDigit = false ∧ ∀ d ∈ c :: rest, isWordChar d := by
  have hWord := h.isWord
  cases hText : text.toList with
  | nil =>
      rw [hText] at hWord
      cases hWord
  | cons c rest =>
      rw [hText] at hWord
      simp only [Glsl.isWord, Bool.and_eq_true, List.all_eq_true, Bool.not_eq_true'] at hWord
      exact ⟨c, rest, rfl, hWord⟩

theorem IsName.head_ne {text : String} (h : IsName text) : text.toList.head? ≠ some '=' := by
  obtain ⟨c, rest, hText, _, hChars⟩ := h.exists_cons
  rw [hText]
  rintro hEq
  have hWordChar := hChars c (List.mem_cons_self ..)
  rw [Option.some.inj hEq] at hWordChar
  exact absurd hWordChar (by decide)

/-- A name is scanned as one leaf. -/
theorem scan_name {text : String} (h : IsName text) : scan text = some [.leaf (.name text)] := by
  obtain ⟨c, rest, hText, hStart, hChars⟩ := h.exists_cons
  have hNumeral : ¬ isNumeral text.toList = true := by
    rw [hText, isNumeral, hStart]
    exact Bool.false_ne_true
  refine scan_leaf (by rw [hText]; exact List.cons_ne_nil _ _) (fun d hd => ?_) ?_
  · rw [hText] at hd
    simp [isLexemeChar, hChars d hd]
  · have hTrue : text.toList ≠ ['t', 'r', 'u', 'e'] := fun hEq =>
      h.ne_true (String.toList_injective hEq)
    have hFalse : text.toList ≠ ['f', 'a', 'l', 's', 'e'] := fun hEq =>
      h.ne_false (String.toList_injective hEq)
    rw [leaf?, if_neg hNumeral, if_neg hTrue, if_neg hFalse, if_pos h.isWord, String.ofList_toList]

end Glsl

end PointStyle
