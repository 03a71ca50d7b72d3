import PointStyle.Proofs.Except
import PointStyle.Proofs.Operator.ByPlace

/-! The operators agree with themselves by places. The checks of a call leave room for its reaches:
the places are followed along the list that they point into, one step of a loop for two
arguments. -/
namespace PointStyle

open Lowering

namespace ByPlace

variable {α β : Type}

section Embedding

/-- Reporting goes with sequences of checks. -/
theorem report_bind (result : Except ExpressionError α) (next : α → Except ExpressionError β) :
    report (result >>= next) = report result >>= fun a => report (next a) := by
  cases result <;> rfl

theorem check_report (result : Except ExpressionError α) :
    check (report result) = lift (Lowering.check result) := by
  cases result <;> rfl

theorem lift_pure (a : α) : lift (pure a) = pure a := rfl

theorem lift_bind (lowering : Lowering α) (next : α → Lowering β) :
    lift (lowering >>= next) = lift lowering >>= fun a => lift (next a) := by
  funext state
  show lift (EStateM.bind lowering next) state = EStateM.bind (lift lowering) _ state
  simp only [lift, EStateM.bind]
  cases lowering state <;> rfl

/-- What is reported as an error is never a slip. -/
theorem report_ne_slipped (result : Except ExpressionError α) (slip : Slip) :
    report result ≠ .error (.slipped slip) := by
  cases result <;> simp [report]

/-- A lowering never ends in a slip. -/
theorem lift_ne_slipped (lowering : Lowering α) (state : State) (slip : Slip) (final : State) :
    lift lowering state ≠ .error (.slipped slip) final := by
  unfold lift
  cases lowering state <;> simp

/-- Computations that go on alike after each result that there can be are alike. -/
theorem bind_lift_congr {lowering : Lowering α} {next : α → Lowering β} {byPlace : α → Reach β}
    (h : ∀ state a final, lowering state = .ok a final → byPlace a = lift (next a)) :
    lift lowering >>= byPlace = lift (lowering >>= next) := by
  rw [lift_bind]
  funext state
  show EStateM.bind (lift lowering) byPlace state = EStateM.bind (lift lowering) _ state
  simp only [lift, EStateM.bind]
  cases hResult : lowering state with
  | error error final => rfl
  | ok a final =>
      simp only [h state a final hResult]
      rfl

/-- After a check that succeeds, it is enough that the rest agrees for what was checked. -/
theorem check_bind {result : Except ExpressionError α} {next : α → Lowering β}
    {byPlace : α → Reach β} (h : ∀ a, result = .ok a → byPlace a = lift (next a)) :
    check (report result) >>= byPlace = lift (Lowering.check result >>= next) := by
  rw [check_report]
  refine bind_lift_congr fun state a final hResult => h a ?_
  cases result with
  | error _ => cases hResult
  | ok _ =>
      cases hResult
      rfl

end Embedding

/-- A term whose meaning does not depend on places. -/
def Operand.ofTerm (term : Term) : Operand :=
  ⟨term.source, report term.types, fun hint => lift (term.lower hint)⟩

def operands (terms : List Term) : List Operand := terms.map .ofTerm

@[simp] theorem length_operands (terms : List Term) : (operands terms).length = terms.length :=
  List.length_map _

/-- Operands by places have the sources of their terms. -/
theorem sources_operands (terms : List Term) :
    (operands terms).map (·.source) = Term.sources terms := by
  rw [operands, List.map_map]
  rfl

/-- By places an operator does what it does by patterns. -/
structure Operation.Agrees (operation : Operation) (operator : Operator) : Prop where
  returns : ∀ args, operation.returns (operands args) = report (operator.returns args)
  lower : ∀ args hint, operation.lower (operands args) hint = lift (operator.lower args hint)

section Checks

variable (args : List Term) (count : Nat)

/-- The check of how many operands there are is that of the arguments. -/
theorem require_count : require ((operands args).length = count)
    (.argsCount count (operands args).length) = report (Term.requireCount args count) := by
  rw [length_operands]
  unfold require Term.requireCount
  split <;> rfl

theorem require_atLeast : require (count ≤ (operands args).length)
    (.argsMinCount count (operands args).length) = report (Term.requireAtLeast args count) := by
  rw [length_operands]
  unfold require Term.requireAtLeast
  by_cases hLess : args.length < count
  · rw [if_neg (by omega), if_pos hLess]
    rfl
  · rw [if_pos (by omega), if_neg hLess]
    rfl

theorem require_atMost : require ((operands args).length ≤ count)
    (.argsMaxCount count (operands args).length) = report (Term.requireAtMost args count) := by
  rw [length_operands]
  unfold require Term.requireAtMost
  by_cases hMore : count < args.length
  · rw [if_neg (by omega), if_pos hMore]
    rfl
  · rw [if_pos (by omega), if_neg hMore]
    rfl

theorem require_even : require ((operands args).length % 2 = 0)
    (.argsEven (operands args).length) = report (Term.requireEven args) := by
  rw [length_operands]
  unfold require Term.requireEven
  split <;> rfl

theorem require_odd : require ((operands args).length % 2 = 1)
    (.argsOdd (operands args).length) = report (Term.requireOdd args) := by
  rw [length_operands]
  unfold require Term.requireOdd
  by_cases hEven : args.length % 2 = 0
  · rw [if_neg (by omega), if_pos hEven]
    rfl
  · rw [if_pos (by omega), if_neg hEven]
    rfl

/-- The check for one type is that of the arguments. -/
theorem require_unique (types : TypeSet) : require types.isUnique
    (.ambiguousType ((operands args).map (·.source))) = report (Term.requireUnique args types) := by
  rw [sources_operands]
  unfold require Term.requireUnique
  split <;> rfl

/-- The check of the type of an operand is that of its term. -/
theorem requireType_ofTerm (type : TypeSet) (error : Expression → ExpressionError) (arg : Term) :
    requireType type error (.ofTerm arg) = report (do
      let types ← arg.types
      if types.meets type then return else throw (error arg.source)) := by
  rw [report_bind]
  refine bind_congr fun types => ?_
  unfold require
  split <;> rfl

/-- A check of each argument in turn. -/
theorem forM_operands {byPlace : Operand → Except Failure Unit}
    {own : Term → Except ExpressionError Unit} {all : List Term → Except ExpressionError Unit}
    (hNil : all [] = .ok ()) (hCons : ∀ arg rest, all (arg :: rest) = own arg >>= fun _ => all rest)
    (h : ∀ arg, byPlace (.ofTerm arg) = report (own arg)) :
    (operands args).forM byPlace = report (all args) := by
  induction args with
  | nil =>
      rw [hNil]
      rfl
  | cons arg rest ih =>
      rw [hCons, report_bind, ← h, ← ih]
      rfl

theorem requireBoolean_ofTerm (arg : Term) :
    requireBoolean (.ofTerm arg) = report arg.requireBoolean :=
  requireType_ofTerm _ _ arg

theorem forM_requireNumber :
    (operands args).forM requireNumber = report (Term.requireNumbers args) :=
  forM_operands args rfl (fun _ _ => rfl) (requireType_ofTerm _ _)

theorem forM_requireBoolean :
    (operands args).forM requireBoolean = report (Term.requireBooleans args) :=
  forM_operands args rfl (fun _ _ => rfl) requireBoolean_ofTerm

end Checks

section Texts

/-- Operands are lowered from left to right as their terms are. -/
theorem lowerAll_operands (args : List Term) (hint : Option TypeSet) :
    lowerAll (operands args) hint = lift (Term.lowerAll args hint) := by
  induction args with
  | nil => rfl
  | cons arg rest ih =>
      rw [Term.lowerAll, lift_bind, lowerAll, operands, List.map_cons, List.mapM_cons]
      refine bind_congr fun text => ?_
      rw [lift_bind, ← ih]
      rfl

theorem lowerNumbers_operands (args : List Term) :
    lowerNumbers (operands args) = lift (Operator.lowerNumbers args) := by
  rw [lowerNumbers, forM_requireNumber, check_report, lowerAll_operands, Operator.lowerNumbers,
    lift_bind]

/-- A fixed number of operands is lowered as the terms are. -/
theorem lowerCount_operands (count : Nat) (args : List Term) :
    lowerCount count (operands args) = lift (Operator.lowerCount count args) := by
  rw [lowerCount, require_count, check_report, lowerNumbers_operands, Operator.lowerCount,
    lift_bind]

/-- Lowering terms gives a text for each. -/
theorem length_of_lowerAll {args : List Term} {hint : Option TypeSet} {state final : State}
    {texts : List String} (h : Term.lowerAll args hint state = .ok texts final) :
    texts.length = args.length := by
  induction args generalizing state final texts with
  | nil =>
      cases h
      rfl
  | cons arg rest ih =>
      obtain ⟨text, middle, _, h⟩ := ok_of_bind h
      obtain ⟨others, last, hOthers, h⟩ := ok_of_bind h
      cases h
      rw [List.length_cons, List.length_cons, ih hOthers]

theorem length_of_lowerCount {count : Nat} {args : List Term} {state final : State}
    {texts : List String} (h : Operator.lowerCount count args state = .ok texts final) :
    texts.length = count := by
  obtain ⟨_, _, hCount, h⟩ := ok_of_bind h
  obtain ⟨_, _, _, h⟩ := ok_of_bind h
  rw [length_of_lowerAll h]
  cases hRequired : Term.requireCount args count with
  | ok _ => exact Term.length_of_requireCount hRequired
  | error _ =>
      rw [hRequired] at hCount
      cases hCount

/-- As many texts as were asked for are there. -/
theorem lowerCount_bind {count : Nat} {args : List Term} {next : List String → Lowering α}
    {byPlace : List String → Reach α}
    (h : ∀ texts, texts.length = count → byPlace texts = lift (next texts)) :
    lowerCount count (operands args) >>= byPlace =
      lift (Operator.lowerCount count args >>= next) := by
  rw [lowerCount_operands]
  exact bind_lift_congr fun _ texts _ hTexts => h texts (length_of_lowerCount hTexts)

/-- A reach finds what stands at its place. -/
theorem item_of_drop {xs rest : List α} {place : Nat} {a : α} (h : xs.drop place = a :: rest) :
    item xs place = .ok a := by
  have hGet : xs[place]? = some a := by
    rw [← Nat.add_zero place, ← List.getElem?_drop, h]
    rfl
  rw [item, hGet]

/-- Reaches for places in a row find the stretch between them, if the list is long enough. -/
theorem mapM_item (xs : List α) (count place : Nat) (h : place + count ≤ xs.length) :
    (List.range' place count).mapM (item xs) = .ok ((xs.drop place).take count) := by
  induction count generalizing place with
  | zero => rfl
  | succ count ih =>
      have hPlace : place < xs.length := by omega
      have hDrop := List.drop_eq_getElem_cons hPlace
      rw [List.range'_succ, List.mapM_cons, item_of_drop hDrop, ih (place + 1) (by omega), hDrop]
      rfl

/-- Reaching for as many texts as there are gives all of them. -/
theorem firstTexts_eq {count : Nat} {texts : List String} (h : texts.length = count) :
    firstTexts count texts = .ok texts := by
  rw [firstTexts, List.range_eq_range', mapM_item texts count 0 (by omega), List.drop_zero,
    List.take_of_length_le (by omega)]

end Texts

section Families

/-- An operator of one type agrees by places if its lowering does. -/
theorem returning_agrees {types : TypeSet} {byPlace : List Operand → Reach String}
    {lower : List Term → Lowering String}
    (h : ∀ args, byPlace (operands args) = lift (lower args)) :
    (returning types byPlace).Agrees (Operator.returning types lower) :=
  ⟨fun _ => rfl, fun args _ => h args⟩

/-- A value of the view agrees by places: it takes no arguments. -/
theorem viewInput_agrees (uniform : String) :
    (viewInput uniform).Agrees (.viewInput uniform) := by
  refine returning_agrees fun args => ?_
  rw [require_count, check_report, lift_bind]
  rfl

/-- A named value agrees by places: its name is the first argument. -/
theorem namedInput_agrees (refer : String → Lowering String) :
    (namedInput refer).Agrees (.namedInput refer) := by
  refine returning_agrees fun args => ?_
  rw [require_count, check_report]
  -- With another number of arguments both report it.
  match args with
  | [] => rfl
  | [arg] =>
      show check (report arg.identifier) >>= _ = _
      rw [check_report, lift_bind]
  | _ :: _ :: _ => rfl

/-- A chain of numbers agrees by places, as it is checked to have two operands. -/
theorem numericChain_agrees (operator : String) :
    (numericChain operator).Agrees (.numericChain operator) := by
  refine returning_agrees fun args => ?_
  rw [require_atLeast, check_report, lowerNumbers_operands, lift_bind]
  refine bind_congr fun _ => ?_
  rw [lift_bind]
  rfl

theorem numericPair_agrees (types : TypeSet) (operator : String) :
    (numericPair types operator).Agrees (.numericPair types operator) := by
  refine returning_agrees fun args => lowerCount_bind fun texts hTexts => ?_
  rw [firstTexts_eq hTexts]
  rfl

/-- A function of numbers agrees by places, as its arguments are counted first. -/
theorem numericFunction_agrees (function : String) (count : Nat) :
    (numericFunction function count).Agrees (.numericFunction function count) := by
  refine returning_agrees fun args => lowerCount_bind fun texts hTexts => ?_
  rw [firstTexts_eq hTexts]
  rfl

theorem round_agrees : round.Agrees .round := by
  refine returning_agrees fun args => lowerCount_bind fun texts hTexts => ?_
  obtain ⟨text, rfl⟩ := List.length_eq_one_iff.mp hTexts
  rfl

theorem between_agrees : between.Agrees .between := by
  refine returning_agrees fun args => lowerCount_bind fun texts hTexts => ?_
  match texts with
  | [value, low, high] => rfl

/-- So does an operator on as many numbers as two bounds allow. -/
theorem numericRange_agrees (types : TypeSet) (least most : Nat) (build : List String → String) :
    (numericRange types least most build).Agrees (Operator.returning types fun args => do
      Lowering.check (Term.requireAtLeast args least)
      Lowering.check (Term.requireAtMost args most)
      return build (← Operator.lowerNumbers args)) := by
  refine returning_agrees fun args => ?_
  simp only [require_atLeast, require_atMost, check_report, lowerNumbers_operands, lift_bind,
    lift_pure]

theorem negation_agrees : negation.Agrees .negation := by
  refine returning_agrees fun args => ?_
  rw [require_count, check_report]
  match args with
  | [] => rfl
  | [arg] =>
      show check (requireBoolean (.ofTerm arg)) >>= _ = _
      rw [requireBoolean_ofTerm, check_report, lift_bind]
      refine bind_congr fun _ => ?_
      rw [lift_bind]
      rfl
  | _ :: _ :: _ => rfl

theorem booleanChain_agrees (operator : String) :
    (booleanChain operator).Agrees (.booleanChain operator) := by
  refine returning_agrees fun args => ?_
  simp only [require_atLeast, forM_requireBoolean, check_report, lowerAll_operands, lift_bind,
    lift_pure]

/-- A reach among operands finds the operand of the term at its place. -/
theorem item_operands {args rest : List Term} {place : Nat} {arg : Term}
    (h : args.drop place = arg :: rest) : item (operands args) place = .ok (.ofTerm arg) := by
  have hDrop : (operands args).drop place = .ofTerm arg :: operands rest := by
    rw [operands, ← List.map_drop, h]
    rfl
  exact item_of_drop hDrop

/-- Lowering at a place lowers the term that stands there. -/
theorem lowerAt_operands {args rest : List Term} {place : Nat} {arg : Term}
    (h : args.drop place = arg :: rest) (hint : Option TypeSet) :
    lowerAt (operands args) place hint = lift (arg.lower hint) := by
  rw [lowerAt, item_operands h]
  rfl

/-- The types shared at places are taken from one place after the other. -/
theorem commonAt_cons {args rest : List Term} {place : Nat} {arg : Term}
    (h : args.drop place = arg :: rest) (types : TypeSet) (others : List Nat) :
    commonAt (operands args) types (place :: others) =
      report arg.types >>= fun own => commonAt (operands args) (types &&& own) others := by
  rw [commonAt, item_operands h]
  rfl

/-- An equality agrees by places: its sides are the first two arguments. -/
theorem equality_agrees (operator : String) : (equality operator).Agrees (.equality operator) := by
  refine returning_agrees fun args => ?_
  rw [require_count, check_report]
  match args with
  | [] => rfl
  | [_] => rfl
  | [left, right] =>
      have hShared : commonAt (operands [left, right]) .any [0, 1] =
          report (Term.commonTypes .any [left, right]) := by
        have hLeft : [left, right].drop 0 = left :: [right] := rfl
        have hRight : [left, right].drop 1 = right :: [] := rfl
        simp only [commonAt_cons hLeft, commonAt_cons hRight, Term.commonTypes, report_bind]
        rfl
      show check (commonAt (operands [left, right]) .any [0, 1]) >>= _ = _
      rw [hShared, check_report, lift_bind]
      refine bind_congr fun shared => ?_
      cases hEmpty : shared.isEmpty with
      | true => rfl
      | false =>
          rw [if_neg (by simp)]
          simp only [lift_bind, lift_pure]
          rfl
  | _ :: _ :: _ :: _ => rfl

end Families

section Conditionals

/-- The types shared by two lists are those of the second among those of the first. -/
theorem commonTypes_append (types : TypeSet) (args others : List Term) :
    Term.commonTypes types (args ++ others) =
      Term.commonTypes types args >>= fun shared => Term.commonTypes shared others := by
  induction args generalizing types with
  | nil => rfl
  | cons arg rest ih =>
      simp only [List.cons_append, Term.commonTypes, ih]
      rw [bind_assoc]

/-- Every other argument from a place on is there. -/
theorem commonAt_operands {args rest : List Term} {place : Nat} (types : TypeSet)
    (h : args.drop place = rest) :
    commonAt (operands args) types (List.range' place ((rest.length + 1) / 2) 2) =
      report (Term.commonTypes types (Operator.everyOther rest)) := by
  match rest with
  | [] => rfl
  | [arg] =>
      rw [List.length_singleton, List.range'_one, commonAt_cons h,
        Operator.everyOther, Term.commonTypes, report_bind]
      rfl
  | arg :: second :: rest =>
      have hRest : args.drop (place + 2) = rest := by
        rw [← List.drop_drop, h]
        rfl
      have hCount : ((arg :: second :: rest).length + 1) / 2 = (rest.length + 1) / 2 + 1 := by
        simp only [List.length_cons]
        omega
      rw [hCount, List.range'_succ, commonAt_cons h, Operator.everyOther, Term.commonTypes,
        report_bind]
      exact bind_congr fun own => commonAt_operands _ hRest

/-- The places from a first one on are as many as there are arguments for, two by two. -/
theorem places_length (args : List Term) (first : Nat) :
    places first (operands args).length =
      List.range' first (((args.drop first).length + 1) / 2) 2 := by
  have hCount : (args.length + 1 - first) / 2 = (args.length - first + 1) / 2 := by omega
  rw [places, length_operands, List.length_drop, hCount]

theorem commonWithLast_operands (args : List Term) (types : TypeSet) :
    commonWithLast (operands args) types =
      report (Term.commonTypes types args.getLast?.toList) := by
  rw [commonWithLast, operands, List.getLast?_map]
  cases args.getLast? with
  | none => rfl
  | some last =>
      rw [Option.toList_some, Term.commonTypes, report_bind]
      rfl

theorem interpolate_returns (args : List Term) :
    Interpolate.returns (operands args) = report (Operator.Interpolate.returns args) := by
  rw [Interpolate.returns, places_length]
  exact commonAt_operands _ rfl

/-- The types of a choice by places are those of every other argument and the last. -/
theorem choice_returns (args : List Term) (first : Nat) :
    (commonAt (operands args) .any (places first (operands args).length) >>=
      commonWithLast (operands args)) =
      report (Term.commonTypes .any
        (Operator.everyOther (args.drop first) ++ args.getLast?.toList)) := by
  rw [commonTypes_append, report_bind, places_length, commonAt_operands _ rfl]
  exact bind_congr fun types => commonWithLast_operands args types

/-- Settling on a type by places is settling on it. -/
theorem outputType_operands {args : List Term} {types : Except Failure TypeSet}
    {own : Except ExpressionError TypeSet} (h : types = report own) (hint : Option TypeSet) :
    outputType (operands args) types hint = lift (Operator.outputType args own hint) := by
  rw [outputType, h, check_report, Operator.outputType, lift_bind]
  refine bind_congr fun inferred => ?_
  simp only [require_unique, check_report, lift_bind, lift_pure]

/-- What is left after two more arguments. -/
theorem drop_two {xs rest : List α} {place : Nat} {a b : α} (h : xs.drop place = a :: b :: rest) :
    xs.drop (place + 1) = b :: rest ∧ xs.drop (place + 2) = rest := by
  rw [← List.drop_drop, ← List.drop_drop, h]
  exact ⟨rfl, rfl⟩

section Stops

variable {args : List Term} (input power : String) (output : TypeSet)

/-- The segments after a stop go on from what there is. -/
theorem segments_ramp {start first : Term} {stops : List Term} {place count : Nat} (below : String)
    (hDrop : args.drop place = start :: first :: stops) (hCount : stops.length = 2 * count) :
    Interpolate.segments (operands args) input power output (some below)
        (List.range' place count 2) =
      some <$> lift (Operator.Interpolate.ramp input power output below start
        (Operator.pairs stops)) := by
  -- Each segment moves the place by two, to where the list of its stops begins.
  induction count generalizing place start first stops below with
  | zero =>
      rw [List.length_eq_zero_iff.mp hCount]
      rfl
  | succ count ih =>
      match stops with
      | [] => exact absurd hCount (by simp)
      | [_] => exact absurd hCount (by simp; omega)
      | stop :: value :: rest =>
          obtain ⟨_, hStop⟩ := drop_two hDrop
          obtain ⟨hValue, _⟩ := drop_two hStop
          have hRest : rest.length = 2 * count := by
            simp only [List.length_cons] at hCount
            omega
          rw [List.range'_succ, Interpolate.segments, Operator.pairs, Operator.Interpolate.ramp]
          simp only [lowerAt_operands hDrop, lowerAt_operands hStop, lowerAt_operands hValue,
            pure_bind, lift_bind, map_bind, ih _ hStop hRest]

/-- The segments of an interpolation are lowered from stop to stop, at two places more for each. -/
theorem segments_stops {start first stop value : Term} {stops : List Term} {place count : Nat}
    (hDrop : args.drop place = start :: first :: stop :: value :: stops)
    (hCount : stops.length = 2 * count) :
    Interpolate.segments (operands args) input power output none
        (List.range' place (count + 1) 2) =
      some <$> lift (Operator.Interpolate.lowerStops input power output args
        (Operator.pairs (start :: first :: stop :: value :: stops))) := by
  obtain ⟨hFirst, hStop⟩ := drop_two hDrop
  obtain ⟨hValue, _⟩ := drop_two hStop
  rw [List.range'_succ, Interpolate.segments, Operator.pairs, Operator.pairs,
    Operator.Interpolate.lowerStops]
  simp only [lowerAt_operands hDrop, lowerAt_operands hFirst, lowerAt_operands hStop,
    lowerAt_operands hValue, lift_bind, map_bind,
    segments_ramp input power output _ hStop hCount]

end Stops

/-- After its checks an interpolation has a segment, and each segment has its stops. -/
theorem interpolate_lower (args : List Term) (hint : Option TypeSet) :
    Interpolate.lower (operands args) hint = lift (Operator.Interpolate.lower args hint) := by
  unfold Interpolate.lower Operator.Interpolate.lower
  rw [require_even, require_atLeast]
  refine check_bind fun _ hEven => check_bind fun _ hLeast => ?_
  have hEven := Term.even_of_requireEven hEven
  have hLeast := Term.le_length_of_requireAtLeast hLeast
  match args with
  | [] | [_] | [_, _] | [_, _, _] | [_, _, _, _] | [_, _, _, _, _] => exact absurd hLeast (by simp)
  | kind :: input :: start :: first :: stop :: value :: stops =>
      rw [item_operands rfl]
      show check (report (Operator.Interpolate.exponent kind)) >>= _ = _
      rw [check_report, lift_bind]
      refine bind_congr fun power => ?_
      rw [outputType_operands (interpolate_returns _), lift_bind]
      refine bind_congr fun output => ?_
      rw [lowerAt_operands rfl, lift_bind]
      refine bind_congr fun inputText => ?_
      have hLength : stops.length = 2 * (stops.length / 2) := by
        simp only [List.length_cons] at hEven
        omega
      have hLess :
          less (operands (kind :: input :: start :: first :: stop :: value :: stops)).length
          2 = .ok (stops.length + 4) := by
        simp [less]
      have hPlaces : places 2 (stops.length + 4) = List.range' 2 (stops.length / 2 + 1) 2 := by
        rw [places]
        congr 1
        omega
      rw [hLess]
      show Interpolate.segments _ _ _ _ _ (places 2 (stops.length + 4)) >>= _ = _
      rw [hPlaces, segments_stops inputText _ output rfl hLength, bind_map_left]
      exact bind_pure _

section Choices

variable {args : List Term} (test : String → String) (output : TypeSet) (fallback : Term)

/-- The pairs of a choice are lowered from the last to the first, at two places less for each. -/
theorem foldlM_addChoice {branches tail : List Term} {place count : Nat}
    (hDrop : args.drop place = branches ++ tail) (hCount : branches.length = 2 * count) :
    (lift (fallback.lower (some output)) >>= fun text =>
      (List.range' place count 2).reverse.foldlM (addChoice (operands args) test output) text) =
      lift (Operator.choices test output fallback (Operator.pairs branches)) := by
  -- The loop runs backwards, so its last round is that of the first pair.
  induction count generalizing place branches with
  | zero =>
      rw [List.length_eq_zero_iff.mp hCount]
      exact bind_pure _
  | succ count ih =>
      match branches with
      | [] => exact absurd hCount (by simp)
      | [_] => exact absurd hCount (by simp; omega)
      | candidate :: value :: rest =>
          obtain ⟨hValue, hRest⟩ := drop_two hDrop
          have hCount : rest.length = 2 * count := by
            simp only [List.length_cons] at hCount
            omega
          rw [List.range'_succ, List.reverse_cons, Operator.pairs, Operator.choices, lift_bind,
            ← ih hRest hCount]
          simp only [List.foldlM_append, List.foldlM_cons, List.foldlM_nil, bind_pure, bind_assoc,
            addChoice, lowerAt_operands hDrop, lowerAt_operands hValue, lift_bind, lift_pure]

/-- A fallback after pairs is reached for at the last place. -/
theorem choices_operands {branches : List Term} {first : Nat} {fallback : Term}
    (hDrop : args.drop first = branches ++ [fallback]) (hEven : branches.length % 2 = 0) :
    choices (operands args) test output first =
      lift (Operator.choices test output fallback (Operator.pairs branches)) := by
  have hLength : args.length = first + branches.length + 1 := by
    have hEq := congrArg List.length hDrop
    rw [List.length_drop, List.length_append, List.length_singleton] at hEq
    omega
  have hLast : args.drop (args.length - 1) = [fallback] := by
    rw [hLength, Nat.add_sub_cancel, ← List.drop_drop, hDrop, List.drop_left]
  have hLess : less (operands args).length 1 = .ok (args.length - 1) := by
    rw [length_operands, less, if_pos (by omega)]
  have hPlaces : places first (args.length - 1) = List.range' first (branches.length / 2) 2 := by
    rw [places]
    congr 1
    omega
  rw [choices, hLess]
  show lowerAt _ _ _ >>= _ = _
  rw [lowerAt_operands hLast, hPlaces]
  exact foldlM_addChoice test output fallback hDrop (by omega)

/-- Unless the arguments are counted before, a choice slips where there are none. -/
example (state : State) :
    choices [] id .number 0 state = .error (.slipped (.underflow 0 1)) state := rfl

end Choices

theorem match_lower (args : List Term) (hint : Option TypeSet) :
    Match.lower (operands args) hint = lift (Operator.Match.lower args hint) := by
  unfold Match.lower Operator.Match.lower
  rw [require_even, require_atLeast]
  refine check_bind fun _ hEven => check_bind fun _ hLeast => ?_
  have hEven := Term.even_of_requireEven hEven
  have hLeast := Term.le_length_of_requireAtLeast hLeast
  have hTypes : Match.returns (operands args) = report (Operator.Match.returns args) :=
    choice_returns args 2
  rw [outputType_operands hTypes, lift_bind]
  refine bind_congr fun output => ?_
  match args with
  | [] => exact absurd hLeast (by simp)
  | input :: rest =>
      rw [List.length_cons] at hEven hLeast
      cases hLast : rest.getLast? with
      | none =>
          rw [List.getLast?_eq_none_iff.mp hLast] at hLeast
          exact absurd hLeast (by simp)
      | some fallback =>
          obtain ⟨branches, rfl⟩ := List.getLast?_eq_some_iff.mp hLast
          have hBranches : branches.length % 2 = 0 := by
            rw [List.length_append, List.length_singleton] at hEven
            omega
          have hFallback : (input :: (branches ++ [fallback])).getLast? = some fallback := by
            rw [← List.cons_append, List.getLast?_concat]
          simp only [hFallback, List.dropLast_concat]
          rw [lowerAt_operands rfl, lift_bind]
          exact bind_congr fun inputText => choices_operands _ output rfl hBranches

theorem everyOther_map {β : Type} (f : α → β) (xs : List α) :
    Operator.everyOther (xs.map f) = (Operator.everyOther xs).map f := by
  match xs with
  | [] => rfl
  | [_] => rfl
  | a :: _ :: rest => exact congrArg (f a :: ·) (everyOther_map f rest)

/-- The conditions of a case are the first halves of its pairs. -/
theorem take_everyOther {branches : List α} (hEven : branches.length % 2 = 0) (fallback : α) :
    (Operator.everyOther (branches ++ [fallback])).take (branches.length / 2) =
      (Operator.pairs branches).map (·.1) := by
  match branches with
  | [] => simp [Operator.pairs]
  | [_] => cases hEven
  | a :: b :: rest =>
      have hRest : rest.length % 2 = 0 := by
        simp only [List.length_cons] at hEven
        omega
      have hHalf : (a :: b :: rest).length / 2 = rest.length / 2 + 1 := by
        simp only [List.length_cons]
        omega
      rw [hHalf]
      exact congrArg (a :: ·) (take_everyOther hRest fallback)

theorem case_lower (args : List Term) (hint : Option TypeSet) :
    Case.lower (operands args) hint = lift (Operator.Case.lower args hint) := by
  unfold Case.lower Operator.Case.lower
  rw [require_odd, require_atLeast]
  refine check_bind fun _ hOdd => check_bind fun _ hLeast => ?_
  have hOdd := Term.odd_of_requireOdd hOdd
  have hTypes : Case.returns (operands args) = report (Operator.Case.returns args) :=
    choice_returns args 1
  rw [outputType_operands hTypes, lift_bind]
  refine bind_congr fun output => ?_
  cases hLast : args.getLast? with
  | none =>
      rw [List.getLast?_eq_none_iff.mp hLast] at hOdd
      cases hOdd
  | some fallback =>
      obtain ⟨branches, rfl⟩ := List.getLast?_eq_some_iff.mp hLast
      rw [List.length_append, List.length_singleton] at hOdd
      have hHalf : (operands (branches ++ [fallback])).length / 2 = branches.length / 2 := by
        rw [length_operands, List.length_append, List.length_singleton]
        omega
      have hConditions : (Operator.everyOther (operands (branches ++ [fallback]))).take
          (branches.length / 2) = operands ((Operator.pairs branches).map (·.1)) := by
        rw [operands, everyOther_map, ← List.map_take, take_everyOther (by omega), operands]
      rw [hHalf, hConditions, forM_requireBoolean, check_report]
      simp only [List.dropLast_concat, lift_bind]
      exact bind_congr fun _ => choices_operands id output rfl (by omega)

end Conditionals

/-- With no operator does a reach miss. -/
theorem agrees (b : Builtin) : b.byPlace.Agrees b.operator := by
  cases b with
  | get | var => exact namedInput_agrees _
  | time | zoom | resolution => exact viewInput_agrees _
  | multiply | add => exact numericChain_agrees _
  | divide | subtract | greater | greaterOrEqual | less | lessOrEqual =>
      exact numericPair_agrees _ _
  | clamp | modulo | power | abs | floor | ceil | sin | cos => exact numericFunction_agrees _ _
  | round => exact round_agrees
  | atan | array | colour => exact numericRange_agrees _ _ _ _
  | equal | notEqual => exact equality_agrees _
  | not => exact negation_agrees
  | all | any => exact booleanChain_agrees _
  | between => exact between_agrees
  | interpolate => exact ⟨interpolate_returns, interpolate_lower⟩
  | matching => exact ⟨fun args => choice_returns args 2, match_lower⟩
  | casewise => exact ⟨fun args => choice_returns args 1, case_lower⟩

end ByPlace

end PointStyle
