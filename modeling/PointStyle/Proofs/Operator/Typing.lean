import PointStyle.Proofs.Glsl.Typing
import PointStyle.Proofs.Lowering.Parts

/-! The types of what operators give. Inference keeps a set of types for an expression, and lowering
picks one of them by a hint, which may be absent, or leave room for several types or for none. When
all arguments have types that their sets and hints allow, so has the call. -/
namespace PointStyle

open Lowering Glsl

/-- The type that values of a type have in a program. -/
def ValueType.dataType? : ValueType → Option DataType
  | .number | .string => some .float
  | .boolean => some .bool
  | .colour => some .vec4
  | .numberArray => none

/-- The type of an atom; properties of features have none here. -/
def Glsl.Atom.type? : Atom → Option DataType
  | .numeral text => (literalTree text).type? (Leaf.type? Shader.viewUniforms)
  | .number _ | .code _ => some .float
  | .truth _ => some .bool
  | .attributeRef _ => none
  | .uniform name => declaredType? Shader.viewUniforms name

/-- The type that lowering settles on suits the types of an expression and the hint it is given.
Only a set of colours and strings leaves something to settle; without a hint it is settled as a
string. -/
inductive Suits : TypeSet → Option TypeSet → DataType → Prop where
  | single {t : ValueType} {type : DataType} (hint : Option TypeSet) :
      t.dataType? = some type → Suits (.single t) hint type
  | code : Suits (.colour ||| .string) none .float
  | asString {hinted : TypeSet} :
      .string ∈ hinted → Suits (.colour ||| .string) (some hinted) .float
  | asColour {hinted : TypeSet} : .colour ∈ hinted → Suits (.colour ||| .string) (some hinted) .vec4

namespace TypeSet

theorem mem_colour_or_string {t : ValueType} :
    t ∈ (colour ||| string) ↔ t = .colour ∨ t = .string := by
  rw [mem_or, colour, string, mem_single, mem_single]

theorem mem_of_meets_single {s : TypeSet} {t : ValueType} (h : s.meets (single t)) : t ∈ s := by
  obtain ⟨other, hMem, hOther⟩ := exists_mem_of_meets h
  exact mem_single.mp hOther ▸ hMem

/-- Of colours and strings there are just one kind or both. -/
theorem eq_single_or_colour_or_string {s : TypeSet} {t : ValueType} (hMem : t ∈ s)
    (hSubset : ∀ other ∈ s, other = .colour ∨ other = .string) :
    s = single t ∨ s = colour ||| string := by
  by_cases hBoth : .colour ∈ s ∧ .string ∈ s
  · refine .inr (ext fun other => ?_)
    rw [mem_colour_or_string]
    refine ⟨hSubset other, ?_⟩
    rintro (rfl | rfl)
    · exact hBoth.1
    · exact hBoth.2
  · refine .inl (ext fun other => ?_)
    rw [mem_single]
    refine ⟨fun hOther => ?_, fun hEq => hEq ▸ hMem⟩
    rcases hSubset t hMem with rfl | rfl <;> rcases hSubset other hOther with rfl | rfl
    · rfl
    · exact absurd ⟨hMem, hOther⟩ hBoth
    · exact absurd ⟨hOther, hMem⟩ hBoth
    · rfl

end TypeSet

namespace Suits

variable {types own shared : TypeSet} {hint : Option TypeSet} {type : DataType} {t : ValueType}

/-- A type of the expression is the one settled on if the hint asks for no other. -/
theorem dataType_eq (h : Suits types hint type) (hMem : t ∈ types)
    (hUnasked : hint = none → t ≠ .colour)
    (hAsked : ∀ hinted, hint = some hinted → ∀ other ∈ hinted, other = t) :
    t.dataType? = some type := by
  cases h with
  | single hint hType => rwa [TypeSet.mem_single.mp hMem]
  | code =>
      rcases TypeSet.mem_colour_or_string.mp hMem with rfl | rfl
      · exact absurd rfl (hUnasked rfl)
      · rfl
  | asString hString => rw [← hAsked _ rfl _ hString]; rfl
  | asColour hColour => rw [← hAsked _ rfl _ hColour]; rfl

/-- Without a hint, a type other than colour is kept. -/
theorem of_unasked (h : Suits types none type) (hMem : t ∈ types) (hColour : t ≠ .colour) :
    t.dataType? = some type :=
  h.dataType_eq hMem (fun _ => hColour) nofun

/-- A type that is asked for is settled on. -/
theorem of_asked (h : Suits types (some (.single t)) type) (hMem : t ∈ types) :
    t.dataType? = some type := by
  refine h.dataType_eq hMem nofun fun hinted hEq other hOther => ?_
  cases hEq
  exact TypeSet.mem_single.mp hOther

/-- Apart from colour, an expression has but one type. -/
theorem eq_of_ne_colour (h : Suits types hint type) {other : ValueType} (hMem : t ∈ types)
    (hOther : other ∈ types) (hColour : t ≠ .colour) (hOtherColour : other ≠ .colour) :
    other = t := by
  have hString : ∀ t ∈ (TypeSet.colour ||| TypeSet.string), t ≠ .colour → t = .string := by
    intro t hMem hColour
    exact (TypeSet.mem_colour_or_string.mp hMem).resolve_left hColour
  cases h with
  | single hint hType => rw [TypeSet.mem_single.mp hMem, TypeSet.mem_single.mp hOther]
  | code | asString _ | asColour _ =>
      rw [hString t hMem hColour, hString other hOther hOtherColour]

/-- Types that expressions share and colour aside leave at most one type to ask for. -/
theorem exists_shared (h : Suits types hint type) (hSubset : ∀ t ∈ shared, t ∈ types)
    (hEmpty : shared.isEmpty = false) :
    ∃ t ∈ shared, ∀ other ∈ shared &&& ~~~TypeSet.colour, other = t := by
  have hOther : ∀ other ∈ shared &&& ~~~TypeSet.colour, other ∈ shared ∧ other ≠ .colour := by
    intro other hMem
    rw [TypeSet.mem_and, TypeSet.mem_complement, TypeSet.colour, TypeSet.mem_single] at hMem
    exact hMem
  by_cases hPlain : ∃ t ∈ shared, t ≠ .colour
  · obtain ⟨t, hMem, hColour⟩ := hPlain
    refine ⟨t, hMem, fun other hAsked => ?_⟩
    obtain ⟨hShared, hOtherColour⟩ := hOther other hAsked
    exact h.eq_of_ne_colour (hSubset t hMem) (hSubset other hShared) hColour hOtherColour
  · obtain ⟨t, hMem⟩ := TypeSet.exists_mem_of_isEmpty_eq_false hEmpty
    exact ⟨t, hMem, fun other hAsked => absurd ⟨other, hOther other hAsked⟩ hPlain⟩

/-- What suits a hint that leaves room for some of the types is one of these. -/
theorem exists_mem (h : Suits types hint type) (hMeets : (hint.getD .any).meets types) :
    ∃ t, t ∈ types &&& hint.getD .any ∧ t.dataType? = some type := by
  simp only [TypeSet.mem_and]
  cases h with
  | single hint hType =>
      obtain ⟨t, hHint, hMem⟩ := TypeSet.exists_mem_of_meets hMeets
      exact ⟨t, ⟨hMem, hHint⟩, by rwa [TypeSet.mem_single.mp hMem]⟩
  | code => exact ⟨.string, ⟨by decide, by decide⟩, rfl⟩
  | asString hString => exact ⟨.string, ⟨by decide, hString⟩, rfl⟩
  | asColour hColour => exact ⟨.colour, ⟨by decide, hColour⟩, rfl⟩

/-- Of fewer types, a hint that leaves just one settles on that one. -/
theorem of_narrow {other : Option TypeSet} {otherType : DataType} (h : Suits types other otherType)
    (hSubset : ∀ t ∈ own, t ∈ types) (hOne : Operator.narrow own hint = .single t)
    (hType : t.dataType? = some type) : Suits own hint type := by
  have hBoth : t ∈ own ∧ t ∈ hint.getD .any := by
    rw [← TypeSet.mem_and, ← Operator.narrow, hOne, TypeSet.mem_single]
  obtain ⟨hMem, hHint⟩ := hBoth
  have hSets : own = .single t ∨ own = .colour ||| .string := by
    cases h with
    | single _ _ =>
        refine .inl (TypeSet.ext fun other => ?_)
        rw [TypeSet.mem_single, TypeSet.mem_single.mp (hSubset t hMem)]
        refine ⟨fun hOther => TypeSet.mem_single.mp (hSubset other hOther), fun hEq => ?_⟩
        rwa [hEq, ← TypeSet.mem_single.mp (hSubset t hMem)]
    | code | asString _ | asColour _ =>
        exact TypeSet.eq_single_or_colour_or_string hMem fun other hOther =>
          TypeSet.mem_colour_or_string.mp (hSubset other hOther)
  rcases hSets with rfl | rfl
  · exact .single hint hType
  · cases hint with
    | none =>
        -- Without a hint both types would be left.
        cases t <;> exact absurd hOne (by decide)
    | some hinted =>
        rcases TypeSet.mem_colour_or_string.mp hMem with rfl | rfl
        · cases hType
          exact .asColour hHint
        · cases hType
          exact .asString hHint

end Suits

namespace Operator

variable {α : Type}

theorem mem_everyOther_of_mem_pairs {xs : List α} {pair : α × α} (h : pair ∈ pairs xs) :
    pair.2 ∈ everyOther (xs.drop 1) := by
  match xs with
  | [] => cases h
  | [_] => cases h
  | [a, b] =>
      rw [List.mem_singleton.mp h]
      exact List.mem_singleton_self b
  | a :: b :: c :: rest =>
      rcases List.mem_cons.mp h with rfl | h
      · exact List.mem_cons_self ..
      · exact List.mem_cons_of_mem _ (mem_everyOther_of_mem_pairs h)

/-- The pairs before the last element are pairs of the whole. -/
theorem mem_pairs_of_dropLast {xs : List α} {pair : α × α} (h : pair ∈ pairs xs.dropLast) :
    pair ∈ pairs xs := by
  match xs with
  | [] => cases h
  | [_] => cases h
  | [_, _] => cases h
  | a :: b :: c :: rest =>
      rcases List.mem_cons.mp h with rfl | h
      · exact List.mem_cons_self ..
      · exact List.mem_cons_of_mem _ (mem_pairs_of_dropLast h)

end Operator

namespace Term

/-- The types of the term are known, and this is one of them. -/
def Has (term : Term) (t : ValueType) : Prop :=
  ∃ types, term.types = .ok types ∧ t ∈ types

variable {args : List Term} {arg : Term} {u : Unit}

/-- What passes the check for a type may have it. -/
theorem has_of_check {t : ValueType} {error : ExpressionError}
    (h : (do
      let types ← arg.types
      if types.meets (.single t) then return else throw error) = Except.ok u) : arg.Has t := by
  obtain ⟨types, hTypes, h⟩ := bind_eq_ok h
  by_cases hMeets : types.meets (.single t)
  · exact ⟨types, hTypes, TypeSet.mem_of_meets_single hMeets⟩
  · rw [if_neg hMeets] at h
    cases h

theorem has_of_requireBoolean (h : arg.requireBoolean = .ok u) : arg.Has .boolean :=
  has_of_check h

/-- Arguments that are checked one after the other have all passed. -/
theorem forall_of_checks {require : Term → Except ExpressionError Unit}
    {requireAll : List Term → Except ExpressionError Unit}
    (hCons : ∀ arg rest, requireAll (arg :: rest) = do require arg; requireAll rest)
    (h : requireAll args = .ok u) : ∀ arg ∈ args, require arg = .ok () := by
  induction args with
  | nil => exact List.forall_mem_nil _
  | cons first rest ih =>
      rw [hCons] at h
      obtain ⟨_, hFirst, hRest⟩ := bind_eq_ok h
      exact List.forall_mem_cons.mpr ⟨hFirst, ih hRest⟩

/-- Arguments that pass the check for numbers may all be numbers. -/
theorem has_of_requireNumbers (h : requireNumbers args = .ok u) : ∀ arg ∈ args, arg.Has .number :=
  fun arg hArg =>
    has_of_check (forall_of_checks (fun _ _ => rfl) h arg hArg : requireNumber arg = _)

theorem has_of_requireBooleans (h : requireBooleans args = .ok u) :
    ∀ arg ∈ args, arg.Has .boolean :=
  fun arg hArg => has_of_requireBoolean (forall_of_checks (fun _ _ => rfl) h arg hArg)

/-- The types that terms share are types of each. -/
theorem commonTypes_ok {types own : TypeSet} (h : commonTypes types args = .ok own) :
    (∀ t ∈ own, t ∈ types) ∧
      ∀ arg ∈ args, ∃ wider, arg.types = .ok wider ∧ ∀ t ∈ own, t ∈ wider := by
  induction args generalizing types with
  | nil =>
      cases h
      exact ⟨fun _ ht => ht, List.forall_mem_nil _⟩
  | cons first rest ih =>
      obtain ⟨wider, hWider, h⟩ := bind_eq_ok h
      obtain ⟨hOwn, hRest⟩ := ih h
      simp only [TypeSet.mem_and] at hOwn
      exact ⟨fun t ht => (hOwn t ht).1,
        List.forall_mem_cons.mpr ⟨⟨wider, hWider, fun t ht => (hOwn t ht).2⟩, hRest⟩⟩

end Term

/-- Whatever the node is lowered to has a type that suits the types of the node and the hint. -/
def Node.IsTyped (node : Node) : Prop :=
  ∀ hint phrase, (node.script hint).outcome = .ok phrase →
    ∃ types type, node.term.types = .ok types ∧ Suits types hint type ∧
      (node.tree hint).type? Atom.type? = some type

/-- The node can be lowered under the hint. -/
def Node.Lowers (node : Node) (hint : Option TypeSet) : Prop :=
  ∃ phrase, (node.script hint).outcome = .ok phrase

namespace Node.IsTyped

variable {node : Node} {t : ValueType} {types : TypeSet}

/-- A typed node that can be lowered has a type that suits its types and its hint. -/
theorem exists_suits {hint : Option TypeSet} (h : node.IsTyped) (hLowers : node.Lowers hint)
    (hTypes : node.term.types = .ok types) :
    ∃ type, Suits types hint type ∧ (node.tree hint).type? Atom.type? = some type := by
  obtain ⟨phrase, hPhrase⟩ := hLowers
  obtain ⟨others, type, hOthers, hSuits, hTree⟩ := h hint phrase hPhrase
  obtain rfl := Except.ok.inj (hTypes.symm.trans hOthers)
  exact ⟨type, hSuits, hTree⟩

/-- Lowered as one of its types, a node has that type. -/
theorem asked (h : node.IsTyped) (hHas : node.term.Has t)
    (hLowers : node.Lowers (some (.single t))) :
    ∃ type, t.dataType? = some type ∧
      (node.tree (some (.single t))).type? Atom.type? = some type := by
  obtain ⟨types, hTypes, hMem⟩ := hHas
  obtain ⟨type, hSuits, hTree⟩ := h.exists_suits hLowers hTypes
  exact ⟨type, hSuits.of_asked hMem, hTree⟩

/-- Lowered without a hint, a node has any of its types but that of colours. -/
theorem unasked (h : node.IsTyped) (hHas : node.term.Has t) (hColour : t ≠ .colour)
    (hLowers : node.Lowers none) :
    ∃ type, t.dataType? = some type ∧ (node.tree none).type? Atom.type? = some type := by
  obtain ⟨types, hTypes, hMem⟩ := hHas
  obtain ⟨type, hSuits, hTree⟩ := h.exists_suits hLowers hTypes
  exact ⟨type, hSuits.of_unasked hMem hColour, hTree⟩

/-- A number or a string is a float if no type is asked for. -/
theorem float_of_unasked (h : node.IsTyped) (hHas : node.term.Has .number ∨ node.term.Has .string)
    (hLowers : node.Lowers none) : (node.tree none).type? Atom.type? = some .float := by
  rcases hHas with hHas | hHas
  · obtain ⟨type, hType, hTree⟩ := h.unasked hHas (by decide) hLowers
    cases hType
    exact hTree
  · obtain ⟨type, hType, hTree⟩ := h.unasked hHas (by decide) hLowers
    cases hType
    exact hTree

/-- A truth value is one if no type is asked for. -/
theorem bool_of_unasked (h : node.IsTyped) (hHas : node.term.Has .boolean)
    (hLowers : node.Lowers none) : (node.tree none).type? Atom.type? = some .bool := by
  obtain ⟨type, hType, hTree⟩ := h.unasked hHas (by decide) hLowers
  cases hType
  exact hTree

end Node.IsTyped

namespace Builtin

section Trees

variable {trees : List (SyntaxTree Atom)} {count : Nat} {type used : DataType}
  {operator : BinaryOperator}

/-- A chain of operands of one type that the operator gives again has that type. -/
theorem type?_chainTree (hOperator : operator.type? type type = some type) (hNonempty : trees ≠ [])
    (hTrees : ∀ tree ∈ trees, tree.type? Atom.type? = some type) :
    (chainTree operator trees).type? Atom.type? = some type := by
  cases trees with
  | nil => exact absurd rfl hNonempty
  | cons first rest =>
      obtain ⟨hFirst, hRest⟩ := List.forall_mem_cons.mp hTrees
      rw [chainTree]
      clear hNonempty hTrees
      -- What has been taken in so far has the type already.
      induction rest generalizing first with
      | nil => exact hFirst
      | cons next rest ih =>
          obtain ⟨hNext, hRest⟩ := List.forall_mem_cons.mp hRest
          exact ih _ (SyntaxTree.type?_binary_eq_some.mpr ⟨_, _, hFirst, hNext, hOperator⟩) hRest

/-- Two operands of one type have the type that the operator gives. -/
theorem type?_pairTree (hOperator : operator.type? used used = some type)
    (hLength : trees.length = 2) (hTrees : ∀ tree ∈ trees, tree.type? Atom.type? = some used) :
    (chainTree operator trees).type? Atom.type? = some type := by
  obtain ⟨left, right, rfl⟩ := List.length_eq_two.mp hLength
  exact SyntaxTree.type?_binary_eq_some.mpr
    ⟨used, used, hTrees left (by simp), hTrees right (by simp), hOperator⟩

/-- As many operands, all of them floats. -/
structure AreFloats (count : Nat) (trees : List (SyntaxTree Atom)) : Prop where
  length : trees.length = count
  type : ∀ tree ∈ trees, tree.type? Atom.type? = some .float

theorem type?_numeralTree {text : String} (hText : text ∈ ["0.0", "0.5", "1.0", "255.0"]) :
    (numeralTree text).type? Atom.type? = some .float := by
  have hAll : ∀ text ∈ ["0.0", "0.5", "1.0", "255.0"],
      (numeralTree text).type? Atom.type? = some .float := by decide
  exact hAll text hText

namespace AreFloats

theorem nil : AreFloats 0 [] :=
  ⟨rfl, List.forall_mem_nil _⟩

theorem cons {first : SyntaxTree Atom} (hFirst : first.type? Atom.type? = some .float)
    (h : AreFloats count trees) : AreFloats (count + 1) (first :: trees) :=
  ⟨by rw [List.length_cons, h.length], List.forall_mem_cons.mpr ⟨hFirst, h.type⟩⟩

/-- A function of floats has the type that it gives at so many of them. -/
theorem call (h : AreFloats count trees) {function : String}
    (hCall : callType? function (List.replicate count .float) = some type) :
    (SyntaxTree.call function trees).type? Atom.type? = some type :=
  SyntaxTree.type?_call_of_forall h.type (h.length ▸ hCall)

theorem chain (h : AreFloats count trees) (hCount : 0 < count)
    (hOperator : operator.type? .float .float = some .float) :
    (chainTree operator trees).type? Atom.type? = some .float :=
  type?_chainTree hOperator (List.ne_nil_of_length_pos (h.length ▸ hCount)) h.type

theorem pair (h : AreFloats 2 trees) (hOperator : operator.type? .float .float = some type) :
    (chainTree operator trees).type? Atom.type? = some type :=
  type?_pairTree hOperator h.length h.type

theorem map (h : AreFloats count trees) {f : SyntaxTree Atom → SyntaxTree Atom}
    (hMap : ∀ tree, tree.type? Atom.type? = some .float → (f tree).type? Atom.type? = some .float) :
    AreFloats count (trees.map f) := by
  refine ⟨by rw [List.length_map, h.length], fun tree hTree => ?_⟩
  obtain ⟨operand, hOperand, rfl⟩ := List.mem_map.mp hTree
  exact hMap operand (h.type operand hOperand)

theorem between (h : AreFloats 3 trees) : (betweenTree trees).type? Atom.type? = some .bool := by
  obtain ⟨value, low, high, rfl⟩ := List.length_eq_three.mp h.length
  have hValue := h.type value (by simp)
  have hLow := h.type low (by simp)
  have hHigh := h.type high (by simp)
  refine SyntaxTree.type?_binary_eq_some.mpr ⟨.bool, .bool, ?_, ?_, rfl⟩
  · exact SyntaxTree.type?_binary_eq_some.mpr ⟨_, _, hValue, hLow, rfl⟩
  · exact SyntaxTree.type?_binary_eq_some.mpr ⟨_, _, hValue, hHigh, rfl⟩

theorem vector (h : AreFloats 4 trees) : (vectorTree trees).type? Atom.type? = some .vec4 := by
  rw [vectorTree, h.length]
  exact h.call rfl

end AreFloats

/-- The components of a colour are floats. -/
theorem areFloats_colourTrees (h : AreFloats count trees) (hLeast : 3 ≤ count) (hMost : count ≤ 4) :
    AreFloats 4 (colourTrees trees) := by
  have hChannel : ∀ tree : SyntaxTree Atom, tree.type? Atom.type? = some .float →
      (SyntaxTree.binary .divide tree (numeralTree "255.0")).type? Atom.type? = some .float := by
    intro tree hTree
    exact SyntaxTree.type?_binary_eq_some.mpr
      ⟨_, _, hTree, type?_numeralTree (by decide), rfl⟩
  have hCount : count = 3 ∨ count = 4 := by omega
  rcases hCount with rfl | rfl
  · obtain ⟨red, green, blue, rfl⟩ := List.length_eq_three.mp h.length
    exact .cons (hChannel red (h.type red (by simp))) <|
      .cons (hChannel green (h.type green (by simp))) <|
      .cons (hChannel blue (h.type blue (by simp))) <|
      .cons (type?_numeralTree (by decide)) .nil
  · obtain ⟨red, rest, rfl⟩ := List.exists_of_length_succ trees h.length
    obtain ⟨green, blue, alpha, rfl⟩ := List.length_eq_three.mp (Nat.succ.inj h.length)
    exact .cons (hChannel red (h.type red (by simp))) <|
      .cons (hChannel green (h.type green (by simp))) <|
      .cons (hChannel blue (h.type blue (by simp))) <|
      .cons (h.type alpha (by simp)) .nil

variable {input power below above low high : SyntaxTree Atom} {output : Option TypeSet}

/-- A blend has the type of its ends, if they can be blended. -/
theorem type?_segmentTree (hType : type = .float ∨ type = .vec4)
    (hInput : input.type? Atom.type? = some .float) (hPower : power.type? Atom.type? = some .float)
    (hBelow : below.type? Atom.type? = some type) (hAbove : above.type? Atom.type? = some type)
    (hLow : low.type? Atom.type? = some .float) (hHigh : high.type? Atom.type? = some .float) :
    (segmentTree id input power below above low high).type? Atom.type? = some type := by
  have hSubtract : ∀ {left right : SyntaxTree Atom}, left.type? Atom.type? = some .float →
      right.type? Atom.type? = some .float →
      (SyntaxTree.binary .subtract left right).type? Atom.type? = some .float := by
    intro left right hLeft hRight
    exact SyntaxTree.type?_binary_eq_some.mpr ⟨_, _, hLeft, hRight, rfl⟩
  have hPosition : (SyntaxTree.binary .divide (.binary .subtract input low)
      (.binary .subtract high low)).type? Atom.type? = some .float :=
    SyntaxTree.type?_binary_eq_some.mpr ⟨_, _, hSubtract hInput hLow, hSubtract hHigh hLow, rfl⟩
  have hBounds : AreFloats 2 [numeralTree "0.0", numeralTree "1.0"] :=
    .cons (type?_numeralTree (by decide)) (.cons (type?_numeralTree (by decide)) .nil)
  have hClamp := (hBounds.cons hPosition).call (rfl : callType? "clamp" _ = _)
  have hWeight := ((AreFloats.nil.cons hPower).cons hClamp).call (rfl : callType? "pow" _ = _)
  refine SyntaxTree.type?_call_eq_some.mpr ⟨[type, type, .float], ?_, ?_⟩
  · rw [List.map_cons, List.map_cons, hBelow, hAbove]
    exact congrArg (fun weight => [some type, some type, weight]) hWeight
  · rcases hType with rfl | rfl <;> rfl

/-- The blends over all segments have the type of the outputs. -/
theorem type?_rampTree (hType : type = .float ∨ type = .vec4)
    (hInput : input.type? Atom.type? = some .float) (hPower : power.type? Atom.type? = some .float)
    {start : Argument} {stops : List (Argument × Argument)}
    (hBelow : below.type? Atom.type? = some type)
    (hStart : (start.tree none).type? Atom.type? = some .float)
    (hStops : ∀ stop ∈ stops, (stop.1.tree none).type? Atom.type? = some .float ∧
      (stop.2.tree output).type? Atom.type? = some type) :
    (rampTree Argument.tree id input power output below start stops).type? Atom.type? =
      some type := by
  induction stops generalizing below start with
  | nil => exact hBelow
  | cons stop rest ih =>
      obtain ⟨⟨hStop, hValue⟩, hRest⟩ := List.forall_mem_cons.mp hStops
      exact ih (type?_segmentTree hType hInput hPower hBelow hValue hStart hStop) hStop hRest

/-- A choice has the type of its outputs. -/
theorem type?_choiceTree {test : SyntaxTree Atom → SyntaxTree Atom} {fallback : Argument}
    {branches : List (Argument × Argument)}
    (hFallback : (fallback.tree output).type? Atom.type? = some type)
    (hBranches : ∀ branch ∈ branches,
      (test (branch.1.tree none)).type? Atom.type? = some .bool ∧
        (branch.2.tree output).type? Atom.type? = some type) :
    (choiceTree Argument.tree test output fallback branches).type? Atom.type? = some type := by
  induction branches with
  | nil => exact hFallback
  | cons branch rest ih =>
      obtain ⟨⟨hTest, hValue⟩, hRest⟩ := List.forall_mem_cons.mp hBranches
      exact SyntaxTree.type?_conditional_eq_some.mpr ⟨hTest, hValue, ih hRest⟩

end Trees

end Builtin

end PointStyle
