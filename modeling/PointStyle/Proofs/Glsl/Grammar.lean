import PointStyle.Proofs.Glsl.Tree

/-! The grammar of GLSL expressions, as far as lowering writes them: the conditional, the logical,
equality, relational and arithmetic operators, which take their operands in from the left, unary
minus and negation, calls and parentheses. A reader that keeps the operators still waiting for
their right operand on a stack finds every tree that the grammar gives, so no sequence of tokens
has two trees. -/
namespace PointStyle

namespace Glsl

/-- The leaves of what is read. -/
inductive Leaf where
  | numeral (text : String)
  | name (text : String)
  | truth (b : Bool)
deriving DecidableEq, Repr

/-- The tokens of expressions. The minus sign is the same token before and between operands. -/
inductive Token where
  | leaf (a : Leaf)
  | operator (operator : BinaryOperator)
  | not
  | question
  | colon
  | comma
  | opening
  | closing
deriving DecidableEq, Repr

mutual

/-- The tokens derive the tree at a level of the grammar. -/
inductive Derives : Nat → List Token → SyntaxTree Leaf → Prop where
  | leaf (a : Leaf) : Derives 8 [.leaf a] (.leaf a)
  | group {tokens : List Token} {tree : SyntaxTree Leaf} :
      Derives 0 tokens tree → Derives 8 (.opening :: (tokens ++ [.closing])) tree
  | emptyCall (function : String) :
      Derives 8 [.leaf (.name function), .opening, .closing] (.call function [])
  | call (function : String) {tokens : List Token} {args : List (SyntaxTree Leaf)} :
      DerivesAll tokens args →
      Derives 8 (.leaf (.name function) :: .opening :: (tokens ++ [.closing])) (.call function args)
  | minus {tokens : List Token} {tree : SyntaxTree Leaf} :
      Derives 7 tokens tree → Derives 7 (.operator .subtract :: tokens) (.minus tree)
  | not {tokens : List Token} {tree : SyntaxTree Leaf} :
      Derives 7 tokens tree → Derives 7 (.not :: tokens) (.not tree)
  | binary (operator : BinaryOperator) {lefts rights : List Token} {left right : SyntaxTree Leaf} :
      Derives operator.level lefts left → Derives (operator.level + 1) rights right →
      Derives operator.level (lefts ++ .operator operator :: rights) (.binary operator left right)
  | conditional {tests yess nos : List Token} {test yes no : SyntaxTree Leaf} :
      Derives 1 tests test → Derives 0 yess yes → Derives 0 nos no →
      Derives 0 (tests ++ .question :: (yess ++ .colon :: nos)) (.conditional test yes no)
  | tighter {level : Nat} {tokens : List Token} {tree : SyntaxTree Leaf} :
      Derives (level + 1) tokens tree → Derives level tokens tree

/-- The tokens derive one or more trees with commas between them. -/
inductive DerivesAll : List Token → List (SyntaxTree Leaf) → Prop where
  | last {tokens : List Token} {tree : SyntaxTree Leaf} :
      Derives 0 tokens tree → DerivesAll tokens [tree]
  | more {tokens rest : List Token} {tree : SyntaxTree Leaf} {trees : List (SyntaxTree Leaf)} :
      Derives 0 tokens tree → DerivesAll rest trees →
      DerivesAll (tokens ++ .comma :: rest) (tree :: trees)

end

/-- What binds tightly may stand where looser expressions may. -/
theorem Derives.of_le {level tight : Nat} {tokens : List Token} {tree : SyntaxTree Leaf}
    (h : Derives tight tokens tree) (hLe : level ≤ tight) : Derives level tokens tree := by
  induction hLe with
  | refl => exact h
  | step _ ih => exact ih h.tighter

namespace Reader

/-- What has been read so far of an expression that is not complete. -/
inductive Frame where
  | binary (operator : BinaryOperator) (left : SyntaxTree Leaf)
  | minus
  | not
  /-- A conditional up to its question mark. -/
  | test (test : SyntaxTree Leaf)
  /-- A conditional up to its colon. -/
  | branch (test yes : SyntaxTree Leaf)
  | group
  /-- A call with the arguments that are complete, the last one first. -/
  | call (function : String) (args : List (SyntaxTree Leaf))

/-- What has just been read. -/
inductive Focus where
  /-- Nothing that an operator could follow. -/
  | expecting
  /-- A name, which may turn out to be that of a function. -/
  | word (name : String)
  | operand (tree : SyntaxTree Leaf)

def Focus.tree? : Focus → Option (SyntaxTree Leaf)
  | .expecting => none
  | .word name => some (.leaf (.name name))
  | .operand tree => some tree

/-- The incomplete expressions, the innermost first, and what has been read last. -/
structure State where
  stack : List Frame
  focus : Focus

/-- Completes what binds at least as tightly as the level asks. -/
def reduce (level : Nat) : List Frame → SyntaxTree Leaf → List Frame × SyntaxTree Leaf
  | .binary operator left :: rest, tree =>
    if level ≤ operator.level then reduce level rest (.binary operator left tree)
    else (.binary operator left :: rest, tree)
  | .minus :: rest, tree => reduce level rest (.minus tree)
  | .not :: rest, tree => reduce level rest (.not tree)
  | .branch test yes :: rest, tree =>
    if level = 0 then reduce level rest (.conditional test yes tree)
    else (.branch test yes :: rest, tree)
  | stack, tree => (stack, tree)

/-- Reads a token after an operand. -/
def follow (stack : List Frame) (tree : SyntaxTree Leaf) : Token → Option State
  | .operator operator =>
    let (stack, left) := reduce operator.level stack tree
    some ⟨.binary operator left :: stack, .expecting⟩
  | .question =>
    let (stack, test) := reduce 1 stack tree
    some ⟨.test test :: stack, .expecting⟩
  | .colon =>
    match reduce 0 stack tree with
    | (.test test :: stack, yes) => some ⟨.branch test yes :: stack, .expecting⟩
    | _ => none
  | .comma =>
    match reduce 0 stack tree with
    | (.call function args :: stack, arg) =>
      some ⟨.call function (arg :: args) :: stack, .expecting⟩
    | _ => none
  | .closing =>
    match reduce 0 stack tree with
    | (.group :: stack, tree) => some ⟨stack, .operand tree⟩
    | (.call function args :: stack, arg) =>
      some ⟨stack, .operand (.call function (arg :: args).reverse)⟩
    | _ => none
  | _ => none

/-- Reads a token where an operand is expected. -/
def start (stack : List Frame) : Token → Option State
  | .leaf (.name name) => some ⟨stack, .word name⟩
  | .leaf a => some ⟨stack, .operand (.leaf a)⟩
  | .operator .subtract => some ⟨.minus :: stack, .expecting⟩
  | .not => some ⟨.not :: stack, .expecting⟩
  | .opening => some ⟨.group :: stack, .expecting⟩
  | .closing =>
    match stack with
    | .call function [] :: stack => some ⟨stack, .operand (.call function [])⟩
    | _ => none
  | _ => none

def step (state : State) (token : Token) : Option State :=
  match state.focus, token with
  | .expecting, token => start state.stack token
  | .word name, .opening => some ⟨.call name [] :: state.stack, .expecting⟩
  | .word name, token => follow state.stack (.leaf (.name name)) token
  | .operand tree, token => follow state.stack tree token

def run (state : State) (tokens : List Token) : Option State :=
  tokens.foldlM step state

/-- The expression that is complete when no token is left. -/
def finish (state : State) : Option (SyntaxTree Leaf) := do
  match reduce 0 state.stack (← state.focus.tree?) with
  | ([], tree) => return tree
  | _ => none

end Reader

/-- Reads tokens as one expression. -/
def parse (tokens : List Token) : Option (SyntaxTree Leaf) := do
  Reader.finish (← Reader.run ⟨[], .expecting⟩ tokens)

namespace Reader

theorem run_append {state middle : State} {first : List Token} (h : run state first = some middle)
    (second : List Token) : run state (first ++ second) = run middle second := by
  rw [run, List.foldlM_append, show first.foldlM step state = some middle from h]
  rfl

theorem run_cons {state next : State} {token : Token} (h : step state token = some next)
    (rest : List Token) : run state (token :: rest) = run next rest := by
  rw [run, List.foldlM_cons, h]
  rfl

/-- After an operand only a parenthesis may give a name another meaning. -/
theorem step_eq_follow {state : State} {tree : SyntaxTree Leaf} {token : Token}
    (hTree : state.focus.tree? = some tree) (hToken : token ≠ .opening) :
    step state token = follow state.stack tree token := by
  obtain ⟨stack, focus⟩ := state
  cases focus with
  | expecting => cases hTree
  | word name =>
      cases hTree
      cases token <;> first | rfl | exact absurd rfl hToken
  | operand _ =>
      cases hTree
      rfl

/-- No expression on the stack is completed at the level. -/
def Stops (level : Nat) : List Frame → Prop
  | .binary operator _ :: _ => operator.level < level
  | .minus :: _ => False
  | .not :: _ => False
  | .branch _ _ :: _ => level ≠ 0
  | _ => True

theorem Stops.mono {level tight : Nat} {stack : List Frame} (h : Stops level stack)
    (hLe : level ≤ tight) : Stops tight stack := by
  match stack with
  | .binary _ _ :: _ => exact Nat.lt_of_lt_of_le h hLe
  | .branch _ _ :: _ =>
      have hNonzero : level ≠ 0 := h
      show tight ≠ 0
      omega
  | .test _ :: _ | .group :: _ | .call _ _ :: _ | [] => trivial

/-- Where the stack stops, nothing is completed. -/
theorem reduce_of_stops {level : Nat} {stack : List Frame} (h : Stops level stack)
    (tree : SyntaxTree Leaf) : reduce level stack tree = (stack, tree) := by
  match stack with
  | .binary operator _ :: _ => rw [reduce, if_neg (Nat.not_le.mpr h)]
  | .branch _ _ :: _ => rw [reduce, if_neg h]
  | .test _ :: _ | .group :: _ | .call _ _ :: _ | [] => rfl

/-- The reader has a tree of a level on top of the stack: whatever is completed next, the tree is
completed first. -/
def Holds (level : Nat) (stack : List Frame) (tree : SyntaxTree Leaf) (state : State) : Prop :=
  ∃ read, state.focus.tree? = some read ∧
    ∀ looser ≤ level, reduce looser state.stack read = reduce looser stack tree

/-- What is completed before anything tight is completed before anything loose. -/
theorem Holds.mono {level tight : Nat} {stack : List Frame} {tree : SyntaxTree Leaf} {state : State}
    (h : Holds tight stack tree state) (hLe : level ≤ tight) : Holds level stack tree state := by
  obtain ⟨read, hRead, hReduce⟩ := h
  exact ⟨read, hRead, fun looser hLooser => hReduce looser (Nat.le_trans hLooser hLe)⟩

/-- A stack on which an expression of a level may be read. The branches of a conditional are only
completed when nothing else is left to be. -/
def Admits (level : Nat) (stack : List Frame) : Prop :=
  level < 7 → Stops (max level 1) stack

section Steps

variable {level : Nat} {stack : List Frame} {tree : SyntaxTree Leaf} {state : State}

/-- The tree that is held is what the next token follows, if it completes the tree first. -/
theorem step_of_holds {token : Token} (h : Holds level stack tree state) (hToken : token ≠ .opening)
    (hOperator : ∀ operator, token = .operator operator → operator.level ≤ level)
    (hQuestion : token = .question → 1 ≤ level) : step state token = follow stack tree token := by
  obtain ⟨read, hRead, hReduce⟩ := h
  rw [step_eq_follow hRead hToken]
  cases token with
  | operator operator => simp only [follow, hReduce _ (hOperator operator rfl)]
  | question => simp only [follow, hReduce 1 (hQuestion rfl)]
  | colon | comma | closing => simp only [follow, hReduce 0 (Nat.zero_le level)]
  | leaf | not | opening => rfl

/-- An operator takes the tree that is held for its left operand. -/
theorem step_operator {operator : BinaryOperator} (h : Holds operator.level stack tree state)
    (hStack : Stops operator.level stack) :
    step state (.operator operator) = some ⟨.binary operator tree :: stack, .expecting⟩ := by
  rw [step_of_holds h (by simp) (by simp) (by simp), follow, reduce_of_stops hStack]

/-- A question mark takes the tree that is held for the test of a conditional. -/
theorem step_question (h : Holds 1 stack tree state) (hStack : Stops 1 stack) :
    step state .question = some ⟨.test tree :: stack, .expecting⟩ := by
  rw [step_of_holds h (by simp) (by simp) (by simp), follow, reduce_of_stops hStack]

/-- A colon takes the tree that is held for the first branch of a conditional. -/
theorem step_colon {test : SyntaxTree Leaf} (h : Holds 0 (.test test :: stack) tree state) :
    step state .colon = some ⟨.branch test tree :: stack, .expecting⟩ := by
  rw [step_of_holds h (by simp) (by simp) (by simp)]
  rfl

/-- A comma takes the tree that is held for an argument of a call. -/
theorem step_comma {function : String} {args : List (SyntaxTree Leaf)}
    (h : Holds 0 (.call function args :: stack) tree state) :
    step state .comma = some ⟨.call function (tree :: args) :: stack, .expecting⟩ := by
  rw [step_of_holds h (by simp) (by simp) (by simp)]
  rfl

/-- A bracket closes a group around the tree that is held. -/
theorem step_closing_group (h : Holds 0 (.group :: stack) tree state) :
    step state .closing = some ⟨stack, .operand tree⟩ := by
  rw [step_of_holds h (by simp) (by simp) (by simp)]
  rfl

/-- A bracket closes a call, whose last argument is the tree that is held. -/
theorem step_closing_call {function : String} {args : List (SyntaxTree Leaf)}
    (h : Holds 0 (.call function args :: stack) tree state) :
    step state .closing = some ⟨stack, .operand (.call function (tree :: args).reverse)⟩ := by
  rw [step_of_holds h (by simp) (by simp) (by simp)]
  rfl

end Steps

/-- A tree that has just been read is held at every level. -/
theorem holds_operand (level : Nat) (stack : List Frame) (tree : SyntaxTree Leaf) :
    Holds level stack tree ⟨stack, .operand tree⟩ :=
  ⟨tree, rfl, fun _ _ => rfl⟩

mutual

/-- Wherever an expression may stand, the reader gets through its tokens and then holds its tree. -/
theorem run_of_derives : ∀ {level : Nat} {tokens : List Token} {tree : SyntaxTree Leaf},
    Derives level tokens tree → ∀ stack, Admits level stack →
      ∃ state, run ⟨stack, .expecting⟩ tokens = some state ∧ Holds level stack tree state
  | _, _, _, .leaf (.numeral _), stack, _ => ⟨_, rfl, holds_operand _ _ _⟩
  | _, _, _, .leaf (.truth _), stack, _ => ⟨_, rfl, holds_operand _ _ _⟩
  | _, _, _, .leaf (.name name), stack, _ => ⟨⟨stack, .word name⟩, rfl, _, rfl, fun _ _ => rfl⟩
  | _, _, _, .emptyCall _, stack, _ => ⟨_, rfl, holds_operand _ _ _⟩
  | _, _, _, .group hInner, stack, _ => by
      obtain ⟨inner, hRun, hHolds⟩ := run_of_derives hInner (.group :: stack) fun _ => trivial
      refine ⟨⟨stack, .operand _⟩, ?_, holds_operand _ _ _⟩
      have hOpening : step ⟨stack, .expecting⟩ .opening = some ⟨.group :: stack, .expecting⟩ := rfl
      rw [run_cons hOpening, run_append hRun, run_cons (step_closing_group hHolds)]
      rfl
  | _, _, _, .call function hArgs, stack, _ => by
      refine ⟨⟨stack, .operand _⟩, ?_, holds_operand _ _ _⟩
      exact run_of_derivesAll hArgs stack function []
  -- The operand of a unary operator is of the operator's own level, so it may stand on any stack.
  | _, _, _, .minus hOperand, stack, _ => by
      obtain ⟨state, hRun, hHolds⟩ :=
        run_of_derives hOperand (.minus :: stack) fun h => absurd h (by simp)
      exact ⟨state, hRun, hHolds⟩
  | _, _, _, .not hOperand, stack, _ => by
      obtain ⟨state, hRun, hHolds⟩ :=
        run_of_derives hOperand (.not :: stack) fun h => absurd h (by simp)
      exact ⟨state, hRun, hHolds⟩
  | _, _, _, .binary operator hLeft hRight, stack, hStack => by
      have hStops := hStack operator.level_lt
      rw [Nat.max_eq_left operator.level_pos] at hStops
      obtain ⟨left, hRunLeft, hHoldsLeft⟩ := run_of_derives hLeft stack hStack
      -- The operator itself holds back what comes after it.
      obtain ⟨right, hRunRight, read, hRead, hReduce⟩ :=
        run_of_derives hRight (.binary operator _ :: stack) fun _ => by
          rw [Nat.max_eq_left (by omega)]
          exact Nat.lt_succ_self _
      refine ⟨right, ?_, read, hRead, fun looser hLooser => ?_⟩
      · rw [run_append hRunLeft, run_cons (step_operator hHoldsLeft hStops), hRunRight]
      · rw [hReduce looser (by omega), reduce, if_pos hLooser]
  | _, _, _, .conditional hTest hYes hNo, stack, hStack => by
      -- The question mark completes the test, and nothing but level 0 completes the last branch.
      have hStops : Stops 1 stack := hStack (by omega)
      obtain ⟨test, hRunTest, hHoldsTest⟩ := run_of_derives hTest stack fun _ => hStops
      obtain ⟨yes, hRunYes, hHoldsYes⟩ := run_of_derives hYes (.test _ :: stack) fun _ => trivial
      obtain ⟨no, hRunNo, read, hRead, hReduce⟩ :=
        run_of_derives hNo (.branch _ _ :: stack) fun _ => Nat.one_ne_zero
      refine ⟨no, ?_, read, hRead, fun looser hLooser => ?_⟩
      · rw [run_append hRunTest, run_cons (step_question hHoldsTest hStops), run_append hRunYes,
          run_cons (step_colon hHoldsYes), hRunNo]
      · rw [hReduce looser hLooser, reduce, if_pos (Nat.le_zero.mp hLooser)]
  | level, _, _, .tighter hTight, stack, hStack => by
      obtain ⟨state, hRun, hHolds⟩ := run_of_derives hTight stack fun hLevel =>
        (hStack (by omega)).mono (by omega)
      exact ⟨state, hRun, hHolds.mono (Nat.le_succ level)⟩

/-- The arguments of a call join those that are complete, up to the closing parenthesis. -/
theorem run_of_derivesAll : ∀ {tokens : List Token} {args : List (SyntaxTree Leaf)},
    DerivesAll tokens args → ∀ stack function done,
      run ⟨.call function done :: stack, .expecting⟩ (tokens ++ [.closing]) =
        some ⟨stack, .operand (.call function (done.reverse ++ args))⟩
  | _, _, .last hArg, stack, function, done => by
      obtain ⟨state, hRun, hHolds⟩ :=
        run_of_derives hArg (.call function done :: stack) fun _ => trivial
      rw [run_append hRun, run_cons (step_closing_call hHolds), List.reverse_cons]
      rfl
  | _, _, @DerivesAll.more tokens rest arg args hArg hRest, stack, function, done => by
      obtain ⟨state, hRun, hHolds⟩ :=
        run_of_derives hArg (.call function done :: stack) fun _ => trivial
      have hRunRest := run_of_derivesAll hRest stack function (arg :: done)
      rw [List.reverse_cons, List.append_assoc, List.singleton_append] at hRunRest
      rw [List.append_assoc, run_append hRun, List.cons_append, run_cons (step_comma hHolds),
        hRunRest]

end

end Reader

/-- The reader finds every tree that the grammar gives. -/
theorem parse_of_derives {tokens : List Token} {tree : SyntaxTree Leaf}
    (h : Derives 0 tokens tree) : parse tokens = some tree := by
  obtain ⟨state, hRun, read, hRead, hReduce⟩ := Reader.run_of_derives h [] fun _ => trivial
  have hFinish : Reader.finish state = some tree := by
    rw [Reader.finish, hRead, Option.bind_eq_bind, Option.bind_some, hReduce 0 (Nat.le_refl 0)]
    rfl
  rw [parse, hRun]
  exact hFinish

/-- The grammar gives no two trees for the same tokens. -/
theorem derives_unique {tokens : List Token} {tree other : SyntaxTree Leaf}
    (h : Derives 0 tokens tree) (hOther : Derives 0 tokens other) : other = tree :=
  Option.some.inj ((parse_of_derives hOther).symm.trans (parse_of_derives h))

end Glsl

end PointStyle
