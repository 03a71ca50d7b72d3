import PointStyle.Proofs.Lowering.Faults
import PointStyle.Proofs.Operator.Arity

/-! The calls of an expression that is lowered. Inferring types takes no notice of most arguments,
so a call deep inside an expression is looked at only because each operator lowers its arguments. It
does lower all of them, so every call has been checked when the whole expression succeeds. -/
namespace PointStyle

open Lowering Glsl

namespace Expression

/-- A part stands in an expression: as the whole of it, or as an argument of a call, at a place. -/
inductive Occurs (e : Expression) : Expression → Option (String × Nat) → Prop where
  | whole : Occurs e e none
  | argument {name : String} {args : List Expression} {outer : Option (String × Nat)} {place : Nat}
      {arg : Expression} : Occurs e (.call name args) outer → args[place]? = some arg →
      Occurs e arg (some (name, place))

/-- What stands in an argument stands in the call. -/
theorem Occurs.of_mem {name : String} {args : List Expression} {arg part : Expression}
    {site : Option (String × Nat)} (hArg : arg ∈ args) (h : arg.Occurs part site) :
    ∃ site, (call name args).Occurs part site := by
  induction h with
  | whole =>
      obtain ⟨place, hPlace⟩ := List.mem_iff_getElem?.mp hArg
      exact ⟨_, .argument .whole hPlace⟩
  | argument _ hPlace ih =>
      obtain ⟨_, hOuter⟩ := ih
      exact ⟨_, .argument hOuter hPlace⟩

/-- A kind of interpolation. -/
def IsKind (e : Expression) : Prop := ∃ power, e.Eases power

/-- The place of the kind of an interpolation. -/
def kindPlace : Option (String × Nat) := some ("interpolate", 0)

end Expression

/-- What is asked of the arguments of a call as they are written. -/
structure Builtin.Accepts (b : Builtin) (args : List Expression) : Prop where
  count : b.arity.Admits args.length
  name : b = .get ∨ b = .var → ∃ name, args = [.string name]
  kind : b = .interpolate → ∃ kind rest, args = kind :: rest ∧ kind.IsKind

namespace Vocabulary

variable (words : Vocabulary) {args : List Expression} {hint : Option TypeSet}

/-- An operator that takes a name has been given a string and nothing else. -/
theorem named_of_plan {event : String → Event} {atom : String → Atom} {plan : Plan}
    (h : Plan.ofName event atom (words.nodes args) = .ok plan) : ∃ name, args = [.string name] := by
  obtain ⟨arg, name, hArgs, hSource, _⟩ := Plan.ofName_ok h
  rw [← words.map_source_nodes args, hArgs, List.map_singleton, Node.source, hSource]
  exact ⟨name, rfl⟩

/-- A call that has a plan has arguments that its operator accepts. -/
theorem accepts_of_plan {b : Builtin} {plan : Plan}
    (h : b.plan (words.nodes args) hint = .ok plan) : b.Accepts args := by
  have hLength : (words.nodes args).length = args.length := by
    rw [nodes_eq_map, List.length_map]
  refine ⟨hLength ▸ Builtin.admits_of_plan h, fun hNamed => ?_, fun hKind => ?_⟩
  · rcases hNamed with rfl | rfl <;> exact words.named_of_plan h
  · subst hKind
    obtain ⟨kind, input, stops, power, _, _, _, _, _, _, hArgs, _, hPower, _⟩ :=
      Plan.ofInterpolation_ok h
    refine ⟨kind.source, (input :: stops).map Node.source, ?_, power,
      Operator.Interpolate.eases_of_exponent hPower⟩
    rw [← words.map_source_nodes args, hArgs, List.map_cons]

/-- The expression can be lowered, under some hint. -/
def Lowers (e : Expression) : Prop :=
  ∃ hint phrase, (words.script e hint).outcome = .ok phrase

/-- A call that can be lowered names an operator that accepts it. -/
theorem accepts_of_lowers {name : String} (h : words.Lowers (.call name args)) :
    ∃ b, words.word? name = some b ∧ b.Accepts args := by
  obtain ⟨hint, phrase, h⟩ := h
  obtain ⟨b, plan, _, hWord, hPlan, _⟩ := words.script_call_ok h
  exact ⟨b, hWord, words.accepts_of_plan hPlan⟩

/-- Where a call can be lowered, so can its arguments, except for those that are read as they are
written. -/
theorem lowers_argument {name : String} (h : words.Lowers (.call name args)) {place : Nat}
    {arg : Expression} (hArg : args[place]? = some arg) :
    (∃ s, arg = .string s) ∨ (words.word? name = some .interpolate ∧ place = 0) ∨
      words.Lowers arg := by
  obtain ⟨hint, phrase, h⟩ := h
  obtain ⟨b, plan, _, hWord, hPlan, hOutcome, _⟩ := words.script_call_ok h
  have hAccepts := words.accepts_of_plan hPlan
  rcases Builtin.exists_visit (words.arguments args) hint hAccepts.count hArg with
    hNamed | ⟨rfl, hPlace⟩ | ⟨own, hVisit⟩
  · obtain ⟨s, rfl⟩ := hAccepts.name hNamed
    exact .inl ⟨s, List.mem_singleton.mp (List.mem_of_getElem? hArg)⟩
  · exact .inr (.inl ⟨hWord, hPlace⟩)
  · have hOperand : (words.node arg, own) ∈ plan.operands := by
      apply (Builtin.plan_visits hPlan).subset
      rw [arguments_nodes, nodes_eq_map, Builtin.visits_map]
      exact List.mem_map_of_mem hVisit
    exact .inr (.inr ⟨own, _, ((Plan.script_ok hOutcome).2 _ hOperand).1⟩)

/-- An operator that is not known is that of a call in the expression. -/
theorem occurs_of_faults {e call : Expression} (h : words.Faults e (.unknownOperator call)) :
    ∃ name args site, call = .call name args ∧ e.Occurs call site ∧ words.word? name = none := by
  generalize hError : ExpressionError.unknownOperator call = error at h
  induction h with
  | unknown hWord =>
      cases hError
      exact ⟨_, _, none, rfl, .whole, hWord⟩
  | concern hConcerns =>
      subst hError
      cases hConcerns
  | length | type => cases hError
  | argument hArg _ ih =>
      obtain ⟨name, args, _, hCall, hOccurs, hWord⟩ := ih hError
      obtain ⟨site, hOuter⟩ := hOccurs.of_mem hArg
      exact ⟨name, args, site, hCall, hOuter, hWord⟩

/-- The invariant of going down into an expression that is lowered. -/
theorem lowers_of_occurs {e part : Expression} {site : Option (String × Nat)}
    (h : standard.Lowers e) (hOccurs : e.Occurs part site) :
    if site = Expression.kindPlace then part.IsKind
    else (∃ s, part = .string s) ∨ standard.Lowers part := by
  induction hOccurs with
  | whole => exact .inr h
  | @argument name args outer place arg _ hArg ih =>
      split at ih
      · -- The only argument of a kind is a number.
        obtain ⟨power, hEases⟩ := ih
        cases hEases with
        | linear => cases hArg
        | exponential _ =>
            rw [if_neg (by simp [Expression.kindPlace])]
            rw [List.mem_singleton.mp (List.mem_of_getElem? hArg)]
            exact .inr ⟨none, _, rfl⟩
      · have hCall : standard.Lowers (.call name args) := by
          rcases ih with ⟨_, hString⟩ | hLowers
          · cases hString
          · exact hLowers
        split
        · rename_i hPlace
          cases hPlace
          obtain ⟨b, hWord, hAccepts⟩ := standard.accepts_of_lowers hCall
          cases (word?_name .interpolate).symm.trans hWord
          obtain ⟨kind, rest, rfl, hKind⟩ := hAccepts.kind rfl
          cases hArg
          exact hKind
        · rename_i hPlace
          rcases standard.lowers_argument hCall hArg with hString | ⟨hWord, rfl⟩ | hLowers
          · exact .inl hString
          · exact absurd
              (congrArg (fun name => some (name, 0)) (name_eq_of_word? hWord).symm) hPlace
          · exact .inr hLowers

end Vocabulary

/-- Success means that every call has been checked. If an expression is lowered with the built-in
operators, then every call in it, at whatever depth, names an operator that accepts its arguments,
except for the kinds of interpolations; these are accepted by their interpolation. If instead the
error is that an operator is not known, then the error quotes a call in the expression, and its name
is indeed not registered. -/
theorem Registry.lower_checks_every_call (e : Expression) (hint : Option TypeSet) (state : State) :
    (∀ text final, Registry.builtin.lower e hint state = .ok text final →
      ∀ name args site, e.Occurs (.call name args) site → site ≠ Expression.kindPlace →
        ∃ b : Builtin, b.name = name ∧ Registry.builtin.find? name = some b.operator ∧
          b.Accepts args) ∧
    ∀ call final, Registry.builtin.lower e hint state = .error (.unknownOperator call) final →
      ∃ name args site, call = .call name args ∧ e.Occurs call site ∧
        Registry.builtin.find? name = none := by
  constructor
  · intro text final hLower name args site hOccurs hPlace
    obtain ⟨phrase, hPhrase, _⟩ := Vocabulary.standard.lower_eq_ok hLower
    have hStands := Vocabulary.lowers_of_occurs ⟨hint, phrase, hPhrase⟩ hOccurs
    rw [if_neg hPlace] at hStands
    rcases hStands with ⟨_, hString⟩ | hCall
    · cases hString
    · obtain ⟨b, hWord, hAccepts⟩ := Vocabulary.standard.accepts_of_lowers hCall
      refine ⟨b, Vocabulary.name_eq_of_word? hWord, ?_, hAccepts⟩
      exact (Vocabulary.standard.find?_eq name).trans (by rw [hWord]; rfl)
  · intro call final hLower
    obtain ⟨name, args, site, hCall, hOccurs, hWord⟩ :=
      Vocabulary.standard.occurs_of_faults (Vocabulary.standard.faults_of_lower hLower)
    refine ⟨name, args, site, hCall, hOccurs, ?_⟩
    exact (Vocabulary.standard.find?_eq name).trans (by rw [hWord]; rfl)

/-- A growing size, bounded by a variable. -/
def Expression.sampleGrowth : Expression :=
  .call "interpolate" [.call "exponential" [.number 2], .call "get" [.string "age"],
    .number 0, .number 1, .number 10, .call "clamp" [.call "var" [.string "scale"], .number 2,
      .number 8]]

/-- The root of a number, an operator that there is not. -/
def Expression.sampleRoot : Expression := .call "sqrt" [.number 2]

theorem Registry.lower_checks_every_call_sampleGrowth :
    (∃ text final, Registry.builtin.lower .sampleGrowth none (State.fresh .vertex) =
      .ok text final) ∧
    Expression.sampleGrowth.Occurs (.call "var" [.string "scale"]) (some ("clamp", 0)) ∧
    Builtin.var.Accepts [.string "scale"] ∧
    (∃ final, Registry.builtin.lower (.call "abs" [.sampleRoot]) none (State.fresh .vertex) =
      .error (.unknownOperator .sampleRoot) final) ∧
    (∃ site, (Expression.call "abs" [.sampleRoot]).Occurs .sampleRoot site) ∧
    Registry.builtin.find? "sqrt" = none := by
  have hLower : ∃ text final, Registry.builtin.lower .sampleGrowth none (State.fresh .vertex) =
      .ok text final := ⟨_, _, rfl⟩
  have hOccurs : Expression.sampleGrowth.Occurs (.call "var" [.string "scale"])
      (some ("clamp", 0)) := by
    have hClamp : Expression.sampleGrowth.Occurs _ (some ("interpolate", 5)) := .argument .whole rfl
    exact .argument hClamp rfl
  have hError : ∃ final, Registry.builtin.lower (.call "abs" [.sampleRoot]) none
      (State.fresh .vertex) = .error (.unknownOperator .sampleRoot) final := ⟨_, rfl⟩
  obtain ⟨text, final, hText⟩ := hLower
  obtain ⟨b, hName, _, hAccepts⟩ :=
    (lower_checks_every_call .sampleGrowth none _).1 text final hText _ _ _ hOccurs
      (by simp [Expression.kindPlace])
  cases Builtin.eq_of_name_eq (show b.name = Builtin.var.name from hName)
  obtain ⟨failed, hFailed⟩ := hError
  obtain ⟨name, args, site, hCall, hSite, hFind⟩ :=
    (lower_checks_every_call (.call "abs" [.sampleRoot]) none _).2 _ failed hFailed
  cases hCall
  exact ⟨⟨text, final, hText⟩, hOccurs, hAccepts, ⟨failed, hFailed⟩, ⟨site, hSite⟩, hFind⟩

end PointStyle
