import PointStyle.Proofs.Operator.Visits

/-! How many arguments calls have. Every built-in operator admits some numbers of arguments and
turns down the others, and with a number that it admits it comes to each argument, but for the two
kinds that are read as they are written. -/
namespace PointStyle

open Glsl

/-- The numbers of arguments that an operator admits. -/
structure Arity where
  least : Nat
  most : Option Nat
  /-- The remainder by two, for arguments that come in pairs. -/
  remainder : Option Nat
deriving DecidableEq, Repr

namespace Arity

def exactly (count : Nat) : Arity := ⟨count, some count, none⟩

def atLeast (count : Nat) : Arity := ⟨count, none, none⟩

def range (least most : Nat) : Arity := ⟨least, some most, none⟩

/-- So many arguments or more, of which there is an even or an odd number. -/
def pairs (least remainder : Nat) : Arity := ⟨least, none, some remainder⟩

structure Admits (arity : Arity) (count : Nat) : Prop where
  least : arity.least ≤ count
  most : ∀ most ∈ arity.most, count ≤ most
  remainder : ∀ remainder ∈ arity.remainder, count % 2 = remainder

theorem admits_exactly (count : Nat) : (exactly count).Admits count where
  least := Nat.le_refl count
  most := by simp [exactly]
  remainder := by simp [exactly]

theorem admits_atLeast {least count : Nat} (h : least ≤ count) : (atLeast least).Admits count where
  least := h
  most := by simp [atLeast]
  remainder := by simp [atLeast]

theorem admits_range {least most count : Nat} (hLeast : least ≤ count) (hMost : count ≤ most) :
    (range least most).Admits count where
  least := hLeast
  most := by simpa [range] using hMost
  remainder := by simp [range]

/-- A number of arguments is admitted if there are enough and they come out even, or odd, as
asked. -/
theorem admits_pairs {least remainder count : Nat} (hLeast : least ≤ count)
    (hRemainder : count % 2 = remainder) : (pairs least remainder).Admits count where
  least := hLeast
  most := by simp [pairs]
  remainder := by simpa [pairs] using hRemainder

end Arity

/-- The arity of each operator. -/
def Builtin.arity : Builtin → Arity
  | .get | .var => .exactly 1
  | .time | .zoom | .resolution => .exactly 0
  | .multiply | .add | .all | .any => .atLeast 2
  | .divide | .subtract | .modulo | .power => .exactly 2
  | .greater | .greaterOrEqual | .less | .lessOrEqual | .equal | .notEqual => .exactly 2
  | .abs | .floor | .round | .ceil | .sin | .cos | .not => .exactly 1
  | .clamp | .between => .exactly 3
  | .atan => .range 1 2
  | .array => .range 2 4
  | .colour => .range 3 4
  | .interpolate => .pairs 6 0
  | .matching => .pairs 4 0
  | .casewise => .pairs 3 1

namespace Plan

variable {args : List Node} {hint : Option TypeSet} {plan : Plan} {build : List Phrase → Phrase}

/-- A plan for a fixed number of numbers has that many arguments. -/
theorem ofCount_admits {count : Nat} (h : ofCount count args build = .ok plan) :
    (Arity.exactly count).Admits args.length := by
  rw [(ofCount_ok h).1]
  exact Arity.admits_exactly count

theorem ofRange_admits {least most : Nat} (h : ofRange least most args build = .ok plan) :
    (Arity.range least most).Admits args.length :=
  Arity.admits_range (ofRange_ok h).1 (ofRange_ok h).2.1

/-- An interpolation that has a plan has a kind, an input and two or more pairs. -/
theorem ofInterpolation_admits (h : ofInterpolation args hint = .ok plan) :
    (Arity.pairs 6 0).Admits args.length := by
  obtain ⟨_, hEven, h⟩ := bind_eq_ok h
  obtain ⟨_, hLeast, _⟩ := bind_eq_ok h
  exact Arity.admits_pairs (le_length_of_requireAtLeast hLeast) (even_of_requireEven hEven)

/-- A match that has a plan has an input, one or more pairs and a fallback. -/
theorem ofMatch_admits (h : ofMatch args hint = .ok plan) :
    (Arity.pairs 4 0).Admits args.length := by
  obtain ⟨_, hEven, h⟩ := bind_eq_ok h
  obtain ⟨_, hLeast, _⟩ := bind_eq_ok h
  exact Arity.admits_pairs (le_length_of_requireAtLeast hLeast) (even_of_requireEven hEven)

/-- A case that has a plan has one or more pairs and a fallback. -/
theorem ofCase_admits (h : ofCase args hint = .ok plan) :
    (Arity.pairs 3 1).Admits args.length := by
  obtain ⟨_, hOdd, h⟩ := bind_eq_ok h
  obtain ⟨_, hLeast, _⟩ := bind_eq_ok h
  exact Arity.admits_pairs (le_length_of_requireAtLeast hLeast) (odd_of_requireOdd hOdd)

end Plan

namespace Builtin

open Arity

/-- A call that is planned has a number of arguments that its operator admits. -/
theorem admits_of_plan {b : Builtin} {args : List Node} {hint : Option TypeSet} {plan : Plan}
    (h : b.plan args hint = .ok plan) : b.arity.Admits args.length := by
  cases b with
  | get | var =>
      obtain ⟨_, _, rfl, _⟩ := Plan.ofName_ok h
      exact admits_exactly 1
  | time | zoom | resolution =>
      obtain ⟨rfl, _⟩ := Plan.ofView_ok h
      exact admits_exactly 0
  | multiply | add => exact admits_atLeast (Plan.ofNumericChain_ok h).1
  | divide | subtract | clamp | modulo | power | abs | floor | round | ceil | sin | cos | greater
  | greaterOrEqual | less | lessOrEqual | between => exact Plan.ofCount_admits h
  | atan | array | colour => exact Plan.ofRange_admits h
  | equal | notEqual =>
      obtain ⟨_, _, _, rfl, _⟩ := Plan.ofEquality_ok h
      exact admits_exactly 2
  | not =>
      obtain ⟨_, rfl, _⟩ := Plan.ofNegation_ok h
      exact admits_exactly 1
  | all | any => exact admits_atLeast (Plan.ofBooleanChain_ok h).1
  | interpolate => exact Plan.ofInterpolation_admits h
  | matching => exact Plan.ofMatch_admits h
  | casewise => exact Plan.ofCase_admits h

section Places

variable {α : Type} {items : List α} {item : α}

/-- Of an even number of items taken in pairs, each is visited. -/
theorem exists_mem_pairVisits (output : Option TypeSet) (hEven : items.length % 2 = 0)
    (h : item ∈ items) : ∃ hint, (item, hint) ∈ pairVisits output (Operator.pairs items) := by
  obtain ⟨pair, hPair, hItem⟩ := Operator.exists_mem_pairs hEven h
  rcases hItem with rfl | rfl
  · exact ⟨none, List.mem_flatMap.mpr ⟨pair, hPair, by simp⟩⟩
  · exact ⟨output, List.mem_flatMap.mpr ⟨pair, hPair, by simp⟩⟩

/-- Of pairs and a fallback after them, nothing is left out. -/
theorem exists_mem_choiceVisits (output : Option TypeSet) {fallback : α}
    (hLast : items.getLast? = some fallback) (hOdd : items.length % 2 = 1) (h : item ∈ items) :
    ∃ hint, (item, hint) ∈
      (fallback, output) :: pairVisits output (Operator.pairs items.dropLast).reverse := by
  obtain ⟨branches, rfl⟩ := List.getLast?_eq_some_iff.mp hLast
  rw [List.dropLast_concat]
  rcases List.mem_append.mp h with hBranch | hFallback
  · have hEven : branches.length % 2 = 0 := by
      rw [List.length_append, List.length_singleton] at hOdd
      omega
    obtain ⟨hint, hVisit⟩ := exists_mem_pairVisits output hEven hBranch
    refine ⟨hint, List.mem_cons_of_mem _ ?_⟩
    simpa [pairVisits] using hVisit
  · rw [List.mem_singleton.mp hFallback]
    exact ⟨output, List.mem_cons_self ..⟩

/-- A call comes to all its arguments, except for the name of an input and the kind of an
interpolation, which stands at the first place. -/
theorem exists_visit {b : Builtin} (args : List Argument) (hint : Option TypeSet)
    (hCount : b.arity.Admits items.length) {place : Nat} (hItem : items[place]? = some item) :
    (b = .get ∨ b = .var) ∨ (b = .interpolate ∧ place = 0) ∨
      ∃ own, (item, own) ∈ b.visits args hint items := by
  have hMem : item ∈ items := List.mem_of_getElem? hItem
  cases b with
  | get => exact .inl (.inl rfl)
  | var => exact .inl (.inr rfl)
  | interpolate =>
      have hEven := hCount.remainder 0 rfl
      match items, place with
      | [], _ => cases hItem
      | [_], _ => cases hEven
      | _ :: input :: stops, 0 => exact .inr (.inl ⟨rfl, rfl⟩)
      | _ :: input :: stops, place + 1 =>
          refine .inr (.inr ?_)
          rw [List.getElem?_cons_succ] at hItem
          rcases List.mem_cons.mp (List.mem_of_getElem? hItem) with rfl | hStop
          · exact ⟨none, List.mem_cons_self ..⟩
          · have hStops : stops.length % 2 = 0 := by
              simp only [List.length_cons] at hEven
              omega
            obtain ⟨own, hVisit⟩ := exists_mem_pairVisits _ hStops hStop
            exact ⟨own, List.mem_cons_of_mem _ hVisit⟩
  | matching =>
      refine .inr (.inr ?_)
      have hEven := hCount.remainder 0 rfl
      match items with
      | [] => cases hItem
      | [_] => cases hEven
      | input :: second :: rest =>
          obtain ⟨fallback, hLast⟩ : ∃ fallback, (second :: rest).getLast? = some fallback :=
            ⟨_, List.getLast?_eq_some_getLast (List.cons_ne_nil _ _)⟩
          simp only [visits, List.getLast?_cons_cons, hLast]
          rcases List.mem_cons.mp hMem with rfl | hRest
          · exact ⟨none, List.mem_cons_self ..⟩
          · have hOdd : (second :: rest).length % 2 = 1 := by
              simp only [List.length_cons] at hEven ⊢
              omega
            obtain ⟨own, hVisit⟩ := exists_mem_choiceVisits _ hLast hOdd hRest
            exact ⟨own, List.mem_cons_of_mem _ hVisit⟩
  | casewise =>
      refine .inr (.inr ?_)
      obtain ⟨fallback, hLast⟩ : ∃ fallback, items.getLast? = some fallback :=
        ⟨_, List.getLast?_eq_some_getLast (List.ne_nil_of_mem hMem)⟩
      simp only [visits, hLast]
      exact exists_mem_choiceVisits _ hLast (hCount.remainder 1 rfl) hMem
  | _ => exact .inr (.inr ⟨_, List.mem_map_of_mem hMem⟩)

end Places

end Builtin

end PointStyle
