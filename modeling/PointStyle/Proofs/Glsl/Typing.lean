import PointStyle.Proofs.Glsl.Grammar
import PointStyle.Proofs.Shader.Header

/-! The types of GLSL expressions, as far as lowering writes them. There are no conversions: an
operator or a function has a type at some operands only if it takes just those. What is typed here
is typed in GLSL, though GLSL allows more. -/
namespace PointStyle

namespace Glsl

/-- The types of values in a program. -/
inductive DataType where
  | bool
  | int
  | float
  | vec2
  | vec3
  | vec4
deriving DecidableEq, Repr

namespace DataType

def all : List DataType := [.bool, .int, .float, .vec2, .vec3, .vec4]

def name : DataType → String
  | .bool => "bool"
  | .int => "int"
  | .float => "float"
  | .vec2 => "vec2"
  | .vec3 => "vec3"
  | .vec4 => "vec4"

def ofName? (name : String) : Option DataType :=
  all.find? (·.name = name)

/-- How many floats a value is made of; a value that is not made of floats has none. -/
def components : DataType → Nat
  | .bool | .int => 0
  | .float => 1
  | .vec2 => 2
  | .vec3 => 3
  | .vec4 => 4

/-- Whether the type is among those that functions are generic in. -/
def isFloating (type : DataType) : Bool := 0 < type.components

end DataType

/-- The type of a value that an operator gives. Arithmetic goes by components, and a float may stand
for as many equal components as the other operand has. -/
def BinaryOperator.type? (left right : DataType) : BinaryOperator → Option DataType
  | .multiply | .divide | .add | .subtract =>
    if left = right ∧ left ≠ .bool then some left
    else if left = .float ∧ right.isFloating then some right
    else if right = .float ∧ left.isFloating then some left
    else none
  | .less | .lessOrEqual | .greater | .greaterOrEqual =>
    if left = right ∧ (left = .float ∨ left = .int) then some .bool else none
  | .equal | .notEqual => if left = right then some .bool else none
  | .and | .or => if left = .bool ∧ right = .bool then some .bool else none

/-- What a parameter of a generic function takes. -/
inductive Parameter where
  /-- The type that the function is used at. -/
  | generic
  /-- A float, whatever type the function is used at. -/
  | scalar

def Parameter.type (used : DataType) : Parameter → DataType
  | .generic => used
  | .scalar => .float

/-- The parameters of a generic function, which gives a value of the type that it is used at. The
first parameter always has that type. -/
def overloads : String → List (List Parameter)
  | "abs" | "floor" | "ceil" | "sin" | "cos" => [[.generic]]
  | "atan" => [[.generic], [.generic, .generic]]
  | "pow" => [[.generic, .generic]]
  | "mod" => [[.generic, .generic], [.generic, .scalar]]
  | "clamp" => [[.generic, .generic, .generic], [.generic, .scalar, .scalar]]
  | "mix" => [[.generic, .generic, .generic], [.generic, .generic, .scalar]]
  | _ => []

/-- The type of a vector that its components make up. -/
def vectorType? (function : String) (args : List DataType) : Option DataType :=
  let count := args.foldl (fun count arg => count + arg.components) 0
  [DataType.vec2, .vec3, .vec4].find? fun vector =>
    vector.name = function ∧ args.all (·.isFloating) ∧ count = vector.components

def genericType? (function : String) : List DataType → Option DataType
  | [] => none
  | used :: rest =>
    if used.isFloating ∧ used :: rest ∈ (overloads function).map (·.map (·.type used)) then
      some used
    else none

/-- The type of a call, by the types of its arguments. -/
def callType? (function : String) (args : List DataType) : Option DataType :=
  (vectorType? function args).or (genericType? function args)

/-- The two values that are mixed have the type of the mixture. -/
theorem callType?_mix {args : List DataType} {type : DataType}
    (h : callType? "mix" args = some type) :
    ∃ weight, args = [type, type, weight] := by
  have hVector : vectorType? "mix" args = none := by
    simp [vectorType?, DataType.name]
  rw [callType?, hVector, Option.none_or] at h
  cases args with
  | nil => cases h
  | cons used rest =>
      simp only [genericType?, overloads, List.map_cons, List.map_nil, Parameter.type,
        Option.ite_none_right_eq_some, List.mem_cons, List.not_mem_nil, or_false, List.cons.injEq,
        true_and, Option.some.injEq] at h
      obtain ⟨⟨_, hRest | hRest⟩, rfl⟩ := h
      · exact ⟨used, by rw [hRest]⟩
      · exact ⟨.float, by rw [hRest]⟩

example : callType? "mix" [.vec4, .vec4, .float] = some .vec4 ∧
    callType? "mix" [.vec4, .float, .float] = none := by
  decide

namespace SyntaxTree

variable {α β : Type}

/-- What holds of a tree when it holds of the trees in it holds of all trees. -/
@[induction_eliminator]
theorem inductionOn {motive : SyntaxTree α → Prop} (leaf : ∀ a, motive (.leaf a))
    (minus : ∀ operand, motive operand → motive (.minus operand))
    (not : ∀ operand, motive operand → motive (.not operand))
    (binary : ∀ operator left right, motive left → motive right →
      motive (.binary operator left right))
    (conditional : ∀ test yes no, motive test → motive yes → motive no →
      motive (.conditional test yes no))
    (call : ∀ function args, (∀ arg ∈ args, motive arg) → motive (.call function args))
    (tree : SyntaxTree α) : motive tree := by
  apply @SyntaxTree.rec α motive (fun args => ∀ arg ∈ args, motive arg)
  · exact leaf
  · exact minus
  · exact not
  · exact binary
  · exact conditional
  · exact call
  · exact List.forall_mem_nil _
  · intro first rest hFirst hRest
    exact List.forall_mem_cons.mpr ⟨hFirst, hRest⟩

mutual

/-- The type of a tree, if it is well typed, given the types of its leaves. -/
def type? (leafType : α → Option DataType) : SyntaxTree α → Option DataType
  | .leaf a => leafType a
  | .minus operand => do
    let type ← operand.type? leafType
    if type = .bool then none else some type
  | .not operand => do
    let type ← operand.type? leafType
    if type = .bool then some .bool else none
  | .binary operator left right => do
    let leftType ← left.type? leafType
    let rightType ← right.type? leafType
    operator.type? leftType rightType
  | .conditional test yes no => do
    let testType ← test.type? leafType
    let yesType ← yes.type? leafType
    let noType ← no.type? leafType
    if testType = .bool ∧ yesType = noType then some yesType else none
  | .call function args => do
    let types ← typeAll? leafType args
    callType? function types

/-- The types of trees that are all well typed. -/
def typeAll? (leafType : α → Option DataType) : List (SyntaxTree α) → Option (List DataType)
  | [] => some []
  | first :: rest => do
    let type ← first.type? leafType
    let types ← typeAll? leafType rest
    return type :: types

end

mutual

/-- A tree and all trees in it. -/
def subtrees : SyntaxTree α → List (SyntaxTree α)
  | .leaf a => [.leaf a]
  | .minus operand => .minus operand :: operand.subtrees
  | .not operand => .not operand :: operand.subtrees
  | .binary operator left right =>
    .binary operator left right :: (left.subtrees ++ right.subtrees)
  | .conditional test yes no =>
    .conditional test yes no :: (test.subtrees ++ yes.subtrees ++ no.subtrees)
  | .call function args => .call function args :: subtreesAll args

def subtreesAll : List (SyntaxTree α) → List (SyntaxTree α)
  | [] => []
  | first :: rest => first.subtrees ++ subtreesAll rest

end

theorem mem_subtreesAll {tree : SyntaxTree α} {trees : List (SyntaxTree α)} :
    tree ∈ subtreesAll trees ↔ ∃ other ∈ trees, tree ∈ other.subtrees := by
  induction trees with
  | nil => simp [subtreesAll]
  | cons first rest ih => simp [subtreesAll, ih]

section Types

variable {leafType : α → Option DataType} {type : DataType}

/-- The opposite of a value has the type of the value, which is not a truth value. -/
theorem type?_minus_eq_some {operand : SyntaxTree α} :
    (minus operand).type? leafType = some type ↔
      operand.type? leafType = some type ∧ type ≠ .bool := by
  refine Option.bind_eq_some_iff.trans ?_
  simp only [Option.ite_none_left_eq_some, Option.some.injEq]
  constructor
  · rintro ⟨_, hOperand, hBool, rfl⟩
    exact ⟨hOperand, hBool⟩
  · rintro ⟨hOperand, hBool⟩
    exact ⟨type, hOperand, hBool, rfl⟩

theorem type?_not_eq_some {operand : SyntaxTree α} :
    (not operand).type? leafType = some type ↔
      operand.type? leafType = some .bool ∧ type = .bool := by
  refine Option.bind_eq_some_iff.trans ?_
  simp only [Option.ite_none_right_eq_some, Option.some.injEq]
  constructor
  · rintro ⟨_, hOperand, rfl, rfl⟩
    exact ⟨hOperand, rfl⟩
  · rintro ⟨hOperand, rfl⟩
    exact ⟨.bool, hOperand, rfl, rfl⟩

/-- An operation has the type that its operator gives at the types of its operands. -/
theorem type?_binary_eq_some {operator : BinaryOperator} {left right : SyntaxTree α} :
    (binary operator left right).type? leafType = some type ↔
      ∃ leftType rightType, left.type? leafType = some leftType ∧
        right.type? leafType = some rightType ∧ operator.type? leftType rightType = some type := by
  refine Option.bind_eq_some_iff.trans ?_
  simp only [Option.bind_eq_bind, Option.bind_eq_some_iff, exists_and_left]

/-- The branches of a conditional have its own type. -/
theorem type?_conditional_eq_some {test yes no : SyntaxTree α} :
    (conditional test yes no).type? leafType = some type ↔
      test.type? leafType = some .bool ∧ yes.type? leafType = some type ∧
        no.type? leafType = some type := by
  refine Option.bind_eq_some_iff.trans ?_
  simp only [Option.bind_eq_bind, Option.bind_eq_some_iff, Option.ite_none_right_eq_some,
    Option.some.injEq]
  constructor
  · rintro ⟨_, hTest, _, hYes, _, hNo, ⟨rfl, rfl⟩, rfl⟩
    exact ⟨hTest, hYes, hNo⟩
  · rintro ⟨hTest, hYes, hNo⟩
    exact ⟨_, hTest, _, hYes, _, hNo, ⟨rfl, rfl⟩, rfl⟩

theorem typeAll?_eq_some {trees : List (SyntaxTree α)} {types : List DataType} :
    typeAll? leafType trees = some types ↔ trees.map (type? leafType) = types.map some := by
  induction trees generalizing types with
  | nil => cases types <;> simp [typeAll?]
  | cons first rest ih =>
      simp only [typeAll?, Option.bind_eq_bind, Option.bind_eq_some_iff, ih, Option.pure_def,
        Option.some.injEq]
      cases types with
      | nil => simp
      | cons type types => simp

/-- A call has the type that its function gives at the types of its arguments. -/
theorem type?_call_eq_some {function : String} {args : List (SyntaxTree α)} :
    (call function args).type? leafType = some type ↔
      ∃ types, args.map (type? leafType) = types.map some ∧
        callType? function types = some type := by
  refine Option.bind_eq_some_iff.trans ?_
  simp only [typeAll?_eq_some]

/-- A call with arguments of one type. -/
theorem type?_call_of_forall {function : String} {args : List (SyntaxTree α)} {used : DataType}
    (hArgs : ∀ arg ∈ args, arg.type? leafType = some used)
    (hCall : callType? function (List.replicate args.length used) = some type) :
    (call function args).type? leafType = some type := by
  refine type?_call_eq_some.mpr ⟨_, ?_, hCall⟩
  rw [List.map_replicate, List.map_eq_replicate_iff]
  exact hArgs

/-- Whatever stands in a well typed tree is well typed. -/
theorem exists_type?_of_mem_subtrees {tree part : SyntaxTree α}
    (h : tree.type? leafType = some type) (hPart : part ∈ tree.subtrees) :
    ∃ own, part.type? leafType = some own := by
  induction tree generalizing type with
  | leaf a =>
      rw [List.mem_singleton.mp hPart]
      exact ⟨type, h⟩
  | minus operand ih =>
      rcases List.mem_cons.mp hPart with rfl | hPart
      · exact ⟨type, h⟩
      · exact ih (type?_minus_eq_some.mp h).1 hPart
  | not operand ih =>
      rcases List.mem_cons.mp hPart with rfl | hPart
      · exact ⟨type, h⟩
      · exact ih (type?_not_eq_some.mp h).1 hPart
  | binary operator left right ihLeft ihRight =>
      rcases List.mem_cons.mp hPart with rfl | hPart
      · exact ⟨type, h⟩
      · obtain ⟨_, _, hLeft, hRight, _⟩ := type?_binary_eq_some.mp h
        rcases List.mem_append.mp hPart with hPart | hPart
        · exact ihLeft hLeft hPart
        · exact ihRight hRight hPart
  | conditional test yes no ihTest ihYes ihNo =>
      rcases List.mem_cons.mp hPart with rfl | hPart
      · exact ⟨type, h⟩
      · obtain ⟨hTest, hYes, hNo⟩ := type?_conditional_eq_some.mp h
        rcases List.mem_append.mp hPart with hPart | hPart
        · rcases List.mem_append.mp hPart with hPart | hPart
          · exact ihTest hTest hPart
          · exact ihYes hYes hPart
        · exact ihNo hNo hPart
  | call function args ih =>
      rcases List.mem_cons.mp hPart with rfl | hPart
      · exact ⟨type, h⟩
      · obtain ⟨types, hTypes, _⟩ := type?_call_eq_some.mp h
        obtain ⟨arg, hArg, hPart⟩ := mem_subtreesAll.mp hPart
        have hOwn : arg.type? leafType ∈ types.map some := hTypes ▸ List.mem_map_of_mem hArg
        obtain ⟨own, _, hOwn⟩ := List.mem_map.mp hOwn
        exact ih arg hArg hOwn.symm hPart

/-- The two branches of every conditional in a well typed tree have one type. -/
theorem branches_agree {tree test yes no : SyntaxTree α} (h : tree.type? leafType = some type)
    (hPart : .conditional test yes no ∈ tree.subtrees) :
    ∃ own, yes.type? leafType = some own ∧ no.type? leafType = some own := by
  obtain ⟨own, hOwn⟩ := exists_type?_of_mem_subtrees h hPart
  exact ⟨own, (type?_conditional_eq_some.mp hOwn).2⟩

/-- The two ends of every mixture in a well typed tree have one type. -/
theorem ends_agree {tree : SyntaxTree α} {args : List (SyntaxTree α)}
    (h : tree.type? leafType = some type) (hPart : .call "mix" args ∈ tree.subtrees) :
    ∃ below above weight own, args = [below, above, weight] ∧ below.type? leafType = some own ∧
      above.type? leafType = some own := by
  obtain ⟨own, hOwn⟩ := exists_type?_of_mem_subtrees h hPart
  obtain ⟨types, hTypes, hCall⟩ := type?_call_eq_some.mp hOwn
  obtain ⟨weightType, rfl⟩ := callType?_mix hCall
  obtain ⟨below, rest, rfl, hBelow, hRest⟩ := List.map_eq_cons_iff.mp hTypes
  obtain ⟨above, rest, rfl, hAbove, hRest⟩ := List.map_eq_cons_iff.mp hRest
  obtain ⟨weight, rfl, _⟩ := List.map_eq_singleton_iff.mp hRest
  exact ⟨below, above, weight, own, rfl, hBelow, hAbove⟩

theorem leaf_mem_subtrees {tree : SyntaxTree α} {a : α} (h : a ∈ tree.leaves) :
    .leaf a ∈ tree.subtrees := by
  induction tree with
  | leaf b => rw [List.mem_singleton.mp h]; exact List.mem_singleton_self _
  | minus operand ih => exact List.mem_cons_of_mem _ (ih h)
  | not operand ih => exact List.mem_cons_of_mem _ (ih h)
  | binary operator left right ihLeft ihRight =>
      refine List.mem_cons_of_mem _ (List.mem_append.mpr ?_)
      exact (List.mem_append.mp h).imp ihLeft ihRight
  | conditional test yes no ihTest ihYes ihNo =>
      refine List.mem_cons_of_mem _ (List.mem_append.mpr ?_)
      refine (List.mem_append.mp h).imp (fun h => List.mem_append.mpr ?_) ihNo
      exact (List.mem_append.mp h).imp ihTest ihYes
  | call function args ih =>
      obtain ⟨arg, hArg, h⟩ := mem_leavesAll.mp h
      exact List.mem_cons_of_mem _ (mem_subtreesAll.mpr ⟨arg, hArg, ih arg hArg h⟩)

theorem bindAll_eq_map (f : α → SyntaxTree β) (trees : List (SyntaxTree α)) :
    bindAll f trees = trees.map (bind f) := by
  induction trees with
  | nil => rfl
  | cons first rest ih => rw [bindAll, ih, List.map_cons]

/-- A tree keeps its type when trees of the types of its leaves take their place. -/
theorem type?_bind {tree : SyntaxTree α} {f : α → SyntaxTree β} {otherType : β → Option DataType}
    (h : tree.type? leafType = some type)
    (hLeaves : ∀ a ∈ tree.leaves, ∀ own, leafType a = some own → (f a).type? otherType = some own) :
    (tree.bind f).type? otherType = some type := by
  induction tree generalizing type with
  | leaf a => exact hLeaves a (List.mem_singleton_self a) type h
  | minus operand ih =>
      obtain ⟨hOperand, hBool⟩ := type?_minus_eq_some.mp h
      exact type?_minus_eq_some.mpr ⟨ih hOperand hLeaves, hBool⟩
  | not operand ih =>
      obtain ⟨hOperand, rfl⟩ := type?_not_eq_some.mp h
      exact type?_not_eq_some.mpr ⟨ih hOperand hLeaves, rfl⟩
  | binary operator left right ihLeft ihRight =>
      obtain ⟨leftType, rightType, hLeft, hRight, hOperator⟩ := type?_binary_eq_some.mp h
      obtain ⟨hLeftLeaves, hRightLeaves⟩ := List.forall_mem_append.mp hLeaves
      exact type?_binary_eq_some.mpr ⟨leftType, rightType, ihLeft hLeft hLeftLeaves,
        ihRight hRight hRightLeaves, hOperator⟩
  | conditional test yes no ihTest ihYes ihNo =>
      obtain ⟨hTest, hYes, hNo⟩ := type?_conditional_eq_some.mp h
      obtain ⟨hFirst, hNoLeaves⟩ := List.forall_mem_append.mp hLeaves
      obtain ⟨hTestLeaves, hYesLeaves⟩ := List.forall_mem_append.mp hFirst
      exact type?_conditional_eq_some.mpr ⟨ihTest hTest hTestLeaves, ihYes hYes hYesLeaves,
        ihNo hNo hNoLeaves⟩
  | call function args ih =>
      obtain ⟨types, hTypes, hCall⟩ := type?_call_eq_some.mp h
      refine type?_call_eq_some.mpr ⟨types, ?_, hCall⟩
      rw [bindAll_eq_map, List.map_map, ← hTypes]
      refine List.map_congr_left fun arg hArg => ?_
      -- Each argument has a type, which it keeps.
      have hOwn : arg.type? leafType ∈ types.map some := hTypes ▸ List.mem_map_of_mem hArg
      obtain ⟨own, _, hOwn⟩ := List.mem_map.mp hOwn
      rw [← hOwn]
      exact ih arg hArg hOwn.symm fun a ha => hLeaves a (mem_leavesAll.mpr ⟨arg, hArg, ha⟩)

end Types

end SyntaxTree

/-- The type of an input, by the line that declares it. -/
def declaredType? (lines : List String) (name : String) : Option DataType := do
  let line ← lines.find? (Shader.declaredName? · = some name)
  let typed := (line.toList.dropWhile (· ≠ ' ')).drop 1
  DataType.ofName? (String.ofList (typed.takeWhile (· ≠ ' ')))

/-- The type of a leaf in a program with such declarations. A numeral is a float if it has a
point. -/
def Leaf.type? (lines : List String) : Leaf → Option DataType
  | .numeral text => some (if '.' ∈ text.toList then .float else .int)
  | .truth _ => some .bool
  | .name text => declaredType? lines text

/-- What has a declared type has a declared name. -/
theorem mem_declaredNames_of_type {lines : List String} {name : String} {type : DataType}
    (h : declaredType? lines name = some type) : name ∈ Shader.declaredNames lines := by
  obtain ⟨line, hLine, _⟩ := Option.bind_eq_some_iff.mp h
  refine List.mem_filterMap.mpr ⟨line, List.mem_of_find?_eq_some hLine, ?_⟩
  simpa using List.find?_some hLine

end Glsl

end PointStyle
