import PointStyle.Proofs.Double
import PointStyle.Proofs.Glsl.Numeral
import PointStyle.Proofs.Glsl.Phrase

/-! Phrases are read as what they are. A phrase fits a level of the grammar when each of its parts
stands where the grammar has a part of its kind, parentheses included. Its text is then read as its
own tree, and as no other. -/
namespace PointStyle

namespace Glsl

namespace Phrase

mutual

/-- The tree of a phrase, in which the parentheses have done their work. -/
def erase : Phrase → SyntaxTree Atom
  | .atom a => .leaf a
  | .negation operand => .not (erase operand)
  | .group inner => erase inner
  | .binary operator left right => .binary operator (erase left) (erase right)
  | .conditional test yes no => .conditional (erase test) (erase yes) (erase no)
  | .call function args => .call function (eraseAll args)

def eraseAll : List Phrase → List (SyntaxTree Atom)
  | [] => []
  | first :: rest => erase first :: eraseAll rest

end

theorem eraseAll_eq_map (phrases : List Phrase) : eraseAll phrases = phrases.map erase := by
  induction phrases with
  | nil => rfl
  | cons first rest ih => rw [eraseAll, ih, List.map_cons]

/-- The phrase may stand where the grammar has an expression of the level. Its atoms satisfy the
given condition. -/
inductive Fits (Good : Atom → Prop) : Nat → Phrase → Prop where
  | atom {level : Nat} {a : Atom} : Good a → level ≤ 7 → Fits Good level (.atom a)
  | negation {level : Nat} {operand : Phrase} :
      Fits Good 7 operand → level ≤ 7 → Fits Good level (.negation operand)
  | group {level : Nat} {inner : Phrase} :
      Fits Good 0 inner → level ≤ 7 → Fits Good level (.group inner)
  | binary {level : Nat} {operator : BinaryOperator} {left right : Phrase} :
      Fits Good operator.level left → Fits Good (operator.level + 1) right →
      level ≤ operator.level →
      Fits Good level (.binary operator left right)
  | conditional {test yes no : Phrase} :
      Fits Good 1 test → Fits Good 0 yes → Fits Good 0 no → Fits Good 0 (.conditional test yes no)
  | call {level : Nat} {function : String} {args : List Phrase} :
      IsName function → args ≠ [] → (∀ arg ∈ args, Fits Good 0 arg) → level ≤ 7 →
      Fits Good level (.call function args)

/-- A phrase that fits where little may be left open fits where more may. -/
theorem Fits.mono {Good : Atom → Prop} {level tight : Nat} {phrase : Phrase}
    (h : Fits Good tight phrase) (hLe : level ≤ tight) : Fits Good level phrase := by
  cases h with
  | atom hAtom hLevel => exact .atom hAtom (Nat.le_trans hLe hLevel)
  | negation hOperand hLevel => exact .negation hOperand (Nat.le_trans hLe hLevel)
  | group hInner hLevel => exact .group hInner (Nat.le_trans hLe hLevel)
  | binary hLeft hRight hLevel => exact .binary hLeft hRight (Nat.le_trans hLe hLevel)
  | conditional hTest hYes hNo =>
      rw [Nat.le_zero.mp hLe]
      exact .conditional hTest hYes hNo
  | call hName hArgs hFits hLevel => exact .call hName hArgs hFits (Nat.le_trans hLe hLevel)

/-- A phrase that fits for some atoms fits for more of them. -/
theorem Fits.imp {Good Better : Atom → Prop} (hImp : ∀ a, Good a → Better a) {level : Nat}
    {phrase : Phrase} (h : Fits Good level phrase) : Fits Better level phrase := by
  induction h with
  | atom hAtom hLevel => exact .atom (hImp _ hAtom) hLevel
  | negation _ hLevel ih => exact .negation ih hLevel
  | group _ hLevel ih => exact .group ih hLevel
  | binary _ _ hLevel ihLeft ihRight => exact .binary ihLeft ihRight hLevel
  | conditional _ _ _ ihTest ihYes ihNo => exact .conditional ihTest ihYes ihNo
  | call hName hNonempty _ hLevel ih => exact .call hName hNonempty ih hLevel

/-- The leaves of the tree of a phrase are atoms of the phrase. -/
theorem Fits.forall_leaves {Good : Atom → Prop} {level : Nat} {phrase : Phrase}
    (h : Fits Good level phrase) : ∀ a ∈ phrase.erase.leaves, Good a := by
  induction h with
  | atom hAtom _ =>
      intro a ha
      exact List.mem_singleton.mp ha ▸ hAtom
  | negation _ _ ih => exact ih
  | group _ _ ih => exact ih
  | binary _ _ _ ihLeft ihRight => exact List.forall_mem_append.mpr ⟨ihLeft, ihRight⟩
  | conditional _ _ _ ihTest ihYes ihNo =>
      exact List.forall_mem_append.mpr ⟨List.forall_mem_append.mpr ⟨ihTest, ihYes⟩, ihNo⟩
  | call _ _ _ _ ih =>
      intro a ha
      rw [erase, eraseAll_eq_map] at ha
      obtain ⟨_, hTree, hLeaf⟩ := SyntaxTree.mem_leavesAll.mp ha
      obtain ⟨arg, hArg, rfl⟩ := List.mem_map.mp hTree
      exact ih arg hArg a hLeaf

/-- The atoms of a phrase are leaves of its tree. -/
theorem Fits.and_leaves {Good : Atom → Prop} {level : Nat} {phrase : Phrase}
    (h : Fits Good level phrase) :
    Fits (fun a => Good a ∧ a ∈ phrase.erase.leaves) level phrase := by
  induction h with
  | atom hAtom hLevel => exact .atom ⟨hAtom, List.mem_singleton_self _⟩ hLevel
  | negation _ hLevel ih => exact .negation ih hLevel
  | group _ hLevel ih => exact .group ih hLevel
  | binary _ _ hLevel ihLeft ihRight =>
      refine .binary (ihLeft.imp fun a hAtom => ?_) (ihRight.imp fun a hAtom => ?_) hLevel
      · exact hAtom.imp_right fun hLeaf => List.mem_append_left _ hLeaf
      · exact hAtom.imp_right fun hLeaf => List.mem_append_right _ hLeaf
  | conditional _ _ _ ihTest ihYes ihNo =>
      refine .conditional (ihTest.imp fun a hAtom => ?_) (ihYes.imp fun a hAtom => ?_)
        (ihNo.imp fun a hAtom => ?_)
      · exact hAtom.imp_right fun hLeaf => List.mem_append_left _ (List.mem_append_left _ hLeaf)
      · exact hAtom.imp_right fun hLeaf => List.mem_append_left _ (List.mem_append_right _ hLeaf)
      · exact hAtom.imp_right fun hLeaf => List.mem_append_right _ hLeaf
  | @call _ _ args hName hNonempty _ hLevel ih =>
      refine .call hName hNonempty (fun arg hArg => (ih arg hArg).imp fun a hAtom => ?_) hLevel
      refine hAtom.imp_right fun hLeaf => SyntaxTree.mem_leavesAll.mpr ⟨arg.erase, ?_, hLeaf⟩
      rw [eraseAll_eq_map]
      exact List.mem_map_of_mem hArg

end Phrase

section Reading

variable (stage : Stage) (codes : LiteralTable)

/-- The tree that an atom is read as. -/
def Atom.tree (a : Atom) : SyntaxTree Leaf :=
  match a with
  | .truth b => .leaf (.truth b)
  | .attributeRef _ | .uniform _ => .leaf (.name (a.text stage codes))
  | .numeral _ | .number _ | .code _ => literalTree (a.text stage codes)

def Atom.tokens (a : Atom) : List Token :=
  match a with
  | .truth b => [.leaf (.truth b)]
  | .attributeRef _ | .uniform _ => [.leaf (.name (a.text stage codes))]
  | .numeral _ | .number _ | .code _ => literalTokens (a.text stage codes)

/-- The text of the atom is read as it should be. -/
def Atom.IsReadable (a : Atom) : Prop :=
  scan (a.text stage codes) = some (a.tokens stage codes) ∧
    (a.text stage codes).toList.head? ≠ some '='

/-- The tokens of an atom derive its tree. -/
theorem Atom.derives_tree (a : Atom) : Derives 7 (a.tokens stage codes) (a.tree stage codes) := by
  cases a with
  | truth b => exact .tighter (.leaf _)
  | attributeRef name => exact .tighter (.leaf _)
  | uniform name => exact .tighter (.leaf _)
  | numeral text => exact derives_literal _
  | number x => exact derives_literal _
  | code s => exact derives_literal _

namespace Phrase

mutual

def tokens : Phrase → List Token
  | .atom a => a.tokens stage codes
  | .negation operand => .not :: tokens operand
  | .group inner => .opening :: (tokens inner ++ [.closing])
  | .binary operator left right => tokens left ++ .operator operator :: tokens right
  | .conditional test yes no => tokens test ++ .question :: (tokens yes ++ .colon :: tokens no)
  | .call function args => .leaf (.name function) :: .opening :: (tokensAll args ++ [.closing])

/-- The tokens of a list of phrases with commas between them. -/
def tokensAll : List Phrase → List Token
  | [] => []
  | [last] => tokens last
  | first :: rest => tokens first ++ .comma :: tokensAll rest

end

/-- The text of the phrase has the tokens and the tree of the phrase. -/
structure IsRead (level : Nat) (phrase : Phrase) : Prop where
  scans : scan (phrase.text stage codes) = some (phrase.tokens stage codes)
  head : (phrase.text stage codes).toList.head? ≠ some '='
  derives : Derives level (phrase.tokens stage codes) (phrase.erase.bind (Atom.tree stage codes))

variable {stage codes}

/-- A text does not begin with an equality sign if neither of its parts does. -/
theorem head_append {first second : String} (hFirst : first.toList.head? ≠ some '=')
    (hSecond : second.toList.head? ≠ some '=') : (first ++ second).toList.head? ≠ some '=' := by
  rw [String.toList_append, List.head?_append]
  cases hHead : first.toList.head? with
  | none => simpa using hSecond
  | some c => rwa [hHead] at hFirst

/-- What starts and ends with a character that joins no other is apart from what it separates. -/
theorem scan_between {first separator second : String} {tokens others middle : List Token}
    (hSeparator : scan separator = some middle) (hStart : separator.toList.head?.any isSolitary)
    (hEnd : separator.toList.getLast?.any isSolitary) (hFirst : scan first = some tokens)
    (hSecond : scan second = some others) :
    scan (first ++ separator ++ second) = some (tokens ++ (middle ++ others)) := by
  obtain ⟨start, hHead, hStart⟩ := (Option.any_eq_true _ _).mp hStart
  obtain ⟨finish, hLast, hFinish⟩ := (Option.any_eq_true _ _).mp hEnd
  have hRight : Apart separator second := apart_of_isSolitary_left _ fun c hc => by
    rw [hLast] at hc
    cases hc
    exact hFinish
  have hLeft : Apart first (separator ++ second) := apart_of_isSolitary_right _ fun c hc => by
    rw [String.toList_append, List.head?_append, hHead] at hc
    cases hc
    exact hStart
  rw [String.append_assoc]
  exact scan_append hLeft hFirst (scan_append hRight hSeparator hSecond)

/-- Parentheses join nothing inside or before them. -/
theorem scan_parentheses {before inner : String} {tokens others : List Token}
    (hBefore : scan before = some tokens) (hInner : scan inner = some others) :
    scan (before ++ "(" ++ inner ++ ")") =
      some (tokens ++ (.opening :: (others ++ [.closing]))) := by
  have hOpening : scan "(" = some [.opening] := by decide
  have hClosing : scan ")" = some [.closing] := by decide
  have hInside : scan (before ++ "(" ++ inner) = some (tokens ++ ([.opening] ++ others)) :=
    scan_between hOpening (by decide) (by decide) hBefore hInner
  have hApart : Apart (before ++ "(" ++ inner) ")" := apart_of_isSolitary_right _ fun c hc =>
    Option.some.inj hc ▸ (by decide : isSolitary ')' = true)
  have hAll := scan_append hApart hInside hClosing
  simpa only [List.append_assoc, List.cons_append, List.nil_append] using hAll

theorem scan_operator (operator : BinaryOperator) :
    scan (" " ++ operator.symbol ++ " ") = some [.operator operator] := by
  cases operator <;> decide

/-- A negation is scanned as such if no equality sign follows. -/
theorem scan_negation {operand : String} {tokens : List Token}
    (hOperand : scan operand = some tokens) (hHead : operand.toList.head? ≠ some '=') :
    scan ("!" ++ operand) = some (.not :: tokens) := by
  have hApart : Apart "!" operand := by
    intro x hx y hy
    have hx : '!' = x := Option.some.inj hx
    have hy : y ≠ '=' := fun hEq => hHead (hEq ▸ hy)
    have hLexeme : isLexemeChar '!' = false := by decide
    rw [← hx]
    simp [joins, hLexeme, hy]
  exact scan_append hApart (by decide : scan "!" = some [.not]) hOperand

/-- Arguments that are separated by commas are scanned one by one. -/
theorem scan_intercalate {args : List Phrase} (hNonempty : args ≠ [])
    (hArgs : ∀ arg ∈ args, scan (arg.text stage codes) = some (arg.tokens stage codes)) :
    scan (", ".intercalate (args.map (text stage codes))) = some (tokensAll stage codes args) := by
  induction args with
  | nil => exact absurd rfl hNonempty
  | cons first rest ih =>
      have hFirst := hArgs first (List.mem_cons_self ..)
      match rest with
      | [] =>
          rw [List.map_singleton, String.intercalate_singleton]
          exact hFirst
      | second :: rest =>
          have hRest := ih (List.cons_ne_nil _ _) fun arg hArg =>
            hArgs arg (List.mem_cons_of_mem _ hArg)
          have hComma : scan ", " = some [.comma] := by decide
          rw [List.map_cons, List.map_cons, String.intercalate_cons_cons]
          exact scan_between hComma (by decide) (by decide) hFirst hRest

/-- The tokens of the arguments of a call derive their trees. -/
theorem derivesAll_tokensAll {args : List Phrase} (hNonempty : args ≠ [])
    (hArgs : ∀ arg ∈ args,
      Derives 0 (arg.tokens stage codes) (arg.erase.bind (Atom.tree stage codes))) :
    DerivesAll (tokensAll stage codes args)
      (SyntaxTree.bindAll (Atom.tree stage codes) (eraseAll args)) := by
  induction args with
  | nil => exact absurd rfl hNonempty
  | cons first rest ih =>
      have hFirst := hArgs first (List.mem_cons_self ..)
      match rest with
      | [] => exact .last hFirst
      | second :: rest =>
          exact .more hFirst (ih (List.cons_ne_nil _ _) fun arg hArg =>
            hArgs arg (List.mem_cons_of_mem _ hArg))

/-- The text of a phrase that fits is read as its own tree. -/
theorem Fits.isRead {level : Nat} {phrase : Phrase}
    (h : Fits (Atom.IsReadable stage codes) level phrase) : phrase.IsRead stage codes level := by
  induction h with
  | @atom level a hAtom hLevel =>
      exact ⟨hAtom.1, hAtom.2, (a.derives_tree stage codes).of_le hLevel⟩
  | negation _ hLevel ih =>
      refine ⟨scan_negation ih.scans ih.head, ?_, (Derives.not ih.derives).of_le hLevel⟩
      exact head_append (by decide) ih.head
  | group _ hLevel ih =>
      have hScan := scan_parentheses (by decide : scan "" = some []) ih.scans
      rw [String.empty_append] at hScan
      refine ⟨hScan, ?_, (Derives.group ih.derives).of_le (Nat.le_trans hLevel (by decide))⟩
      exact head_append (head_append (by decide) ih.head) (by decide)
  | @binary level operator left right _ _ hLevel ihLeft ihRight =>
      refine ⟨?_, ?_, (Derives.binary operator ihLeft.derives ihRight.derives).of_le hLevel⟩
      · refine scan_between (scan_operator operator) ?_ ?_ ihLeft.scans ihRight.scans
        · cases operator <;> decide
        · cases operator <;> decide
      · refine head_append (head_append ihLeft.head ?_) ihRight.head
        cases operator <;> decide
  | conditional _ _ _ ihTest ihYes ihNo =>
      have hQuestion : scan " ? " = some [.question] := by decide
      have hColon : scan " : " = some [.colon] := by decide
      refine ⟨?_, ?_, .conditional ihTest.derives ihYes.derives ihNo.derives⟩
      · have hBranches := scan_between hColon (by decide) (by decide) ihYes.scans ihNo.scans
        have hAll := scan_between hQuestion (by decide) (by decide) ihTest.scans hBranches
        simpa only [text, tokens, String.append_assoc, List.singleton_append] using hAll
      · refine head_append (head_append (head_append (head_append ihTest.head ?_) ihYes.head) ?_)
          ihNo.head
        · decide
        · decide
  | @call level function args hName hNonempty _ hLevel ih =>
      have hScans := scan_intercalate hNonempty fun arg hArg => (ih arg hArg).scans
      have hDerives := derivesAll_tokensAll hNonempty fun arg hArg => (ih arg hArg).derives
      refine ⟨?_, ?_, (Derives.call function hDerives).of_le (Nat.le_trans hLevel (by decide))⟩
      · rw [text_call]
        exact scan_parentheses (scan_name hName) hScans
      · have hHead := hName.head_ne
        obtain ⟨c, rest, hText, _⟩ := hName.exists_cons
        rw [text_call, Glsl.call, String.append_assoc, String.append_assoc,
          String.toList_append, hText]
        rw [hText] at hHead
        exact hHead

end Phrase

end Reading

end Glsl

end PointStyle
