import PointStyle.Proofs.Lowering.ReadBack
import PointStyle.Proofs.Operator.TypedCalls

/-! Type soundness. Expressions without inputs of the style and without arrays are lowered to text
that is well typed in every program, and its type is one that inference and the hint agree on. -/
namespace PointStyle

open Lowering Glsl

/-- The scalar language: numbers, truth values and strings, and calls of operators whose arguments
are in the language. What a match compares may be a number or a string, and an interpolation moves
between numbers; its kind is not an expression of the language. -/
inductive Expression.IsScalar : Expression → Prop where
  | number (x : Float) : IsScalar (.number x)
  | bool (b : Bool) : IsScalar (.bool b)
  | string (s : String) : IsScalar (.string s)
  | call {b : Builtin} {args : List Expression} :
      b.isScalar → (∀ arg ∈ args, IsScalar arg) → IsScalar (.call b.name args)
  | matching {args : List Expression} :
      (∀ arg ∈ args, IsScalar arg) →
      (∀ e ∈ Operator.Match.compared args,
        ∃ types, Registry.builtin.infer e = .ok types ∧ (.number ∈ types ∨ .string ∈ types)) →
      IsScalar (.call Builtin.matching.name args)
  | interpolate {args : List Expression} :
      (∀ arg ∈ args.drop 1, IsScalar arg) →
      (∀ e ∈ Operator.Interpolate.places args, Registry.builtin.infer e = .ok .number) →
      IsScalar (.call Builtin.interpolate.name args)

namespace Vocabulary

theorem type?_colourTree (red green blue alpha : Float) :
    (colourTree red green blue alpha).type? Atom.type? = some .vec4 := by
  have hNumber : ∀ x : Float, (SyntaxTree.leaf (Atom.number x)).type? Atom.type? = some .float :=
    fun _ => rfl
  exact Builtin.AreFloats.vector
    (.cons (hNumber _) (.cons (hNumber _) (.cons (hNumber _) (.cons (hNumber _) .nil))))

/-- A string is a string only, or it may be a colour too. -/
theorem stringTypes_cases (s : String) :
    Expression.stringTypes s = .single .string ∨
      Expression.stringTypes s = .colour ||| .string := by
  unfold Expression.stringTypes
  split
  · exact .inr rfl
  · exact .inl rfl

/-- A string is lowered to a float or, where only a colour will do, to a vector. -/
theorem string_isTyped (s : String) : (standard.node (.string s)).IsTyped := by
  intro hint phrase h
  replace h : (stringScript s hint).outcome = .ok phrase := h
  refine ⟨Expression.stringTypes s, ?_⟩
  show ∃ type, _ ∧ _ ∧ (stringTree s hint).type? Atom.type? = some type
  unfold stringScript at h
  unfold stringTree
  by_cases hString : Expression.expects hint .string
  · rw [if_pos hString]
    refine ⟨.float, rfl, ?_, rfl⟩
    rcases stringTypes_cases s with hTypes | hTypes <;> rw [hTypes]
    · exact .single hint rfl
    · cases hint with
      | none => exact .code
      | some hinted => exact .asString (beq_iff_eq.mp hString ▸ (by decide))
  · rw [if_neg hString] at h ⊢
    split at h
    · rename_i hColour
      rw [Bool.and_eq_true] at hColour
      rcases stringTypes_cases s with hTypes | hTypes
      · rw [hTypes] at hColour
        exact absurd hColour.1 (by decide)
      · cases hint with
        | none => exact absurd rfl hString
        | some hinted =>
            cases hParse : Colour.parse s with
            | error error =>
                rw [hParse] at h
                cases h
            | ok colour =>
                refine ⟨.vec4, rfl, hTypes ▸ .asColour (beq_iff_eq.mp hColour.2 ▸ (by decide)), ?_⟩
                exact type?_colourTree ..
    · cases h

/-- A call is typed if its operator makes it so in every plan that succeeds. -/
theorem call_isTyped {b : Builtin} {args : List Expression}
    (h : ∀ hint plan phrase, b.plan (standard.nodes args) hint = .ok plan →
      plan.script.outcome = .ok phrase → b.IsTypedAt (standard.nodes args) hint) :
    (standard.node (.call b.name args)).IsTyped := by
  intro hint phrase hPhrase
  obtain ⟨_, plan, _, hWord, hPlan, hOutcome, _⟩ := standard.script_call_ok hPhrase
  rw [word?_name] at hWord
  cases hWord
  obtain ⟨types, type, hTypes, hSuits, hTree⟩ := h hint plan phrase hPlan hOutcome
  refine ⟨types, type, (standard.types_call (word?_name b) args).trans hTypes, hSuits, ?_⟩
  show (standard.tree (.call b.name args) hint).type? Atom.type? = some type
  rw [tree, word?_name, ← arguments_nodes]
  exact hTree

/-- Nodes of typed expressions are typed. -/
theorem nodes_areTyped {args : List Expression} (h : ∀ arg ∈ args, (standard.node arg).IsTyped) :
    ∀ node ∈ standard.nodes args, node.IsTyped := by
  intro node hNode
  rw [nodes_eq_map] at hNode
  obtain ⟨arg, hArg, rfl⟩ := List.mem_map.mp hNode
  exact h arg hArg

/-- Every expression of the scalar language is typed. -/
theorem node_isTyped {e : Expression} (h : e.IsScalar) : (standard.node e).IsTyped := by
  induction h with
  | number x => exact fun hint _ _ => ⟨.number, .float, rfl, .single hint rfl, rfl⟩
  | bool b => exact fun hint _ _ => ⟨.boolean, .bool, rfl, .single hint rfl, rfl⟩
  | string s => exact string_isTyped s
  | call hScalar _ ih =>
      refine call_isTyped fun hint plan phrase hPlan hOk => ?_
      exact Builtin.isTypedAt_of_isScalar hScalar (nodes_areTyped ih) hOk hPlan
  | @matching args _ hCompared ih =>
      refine call_isTyped fun hint plan phrase hPlan hOk => ?_
      refine Plan.ofMatch_typed (nodes_areTyped ih) (fun node hNode => ?_) hOk hPlan
      rw [nodes_eq_map, Operator.Match.compared_map] at hNode
      obtain ⟨other, hOther, rfl⟩ := List.mem_map.mp hNode
      obtain ⟨types, hTypes, hMem⟩ := hCompared other hOther
      exact hMem.imp (fun hNumber => ⟨types, hTypes, hNumber⟩) fun hString =>
        ⟨types, hTypes, hString⟩
  | @interpolate args _ hPlaces ih =>
      refine call_isTyped fun hint plan phrase hPlan hOk => ?_
      refine Plan.ofInterpolation_typed ?_ (fun node hNode => ?_) hOk hPlan
      · rw [nodes_eq_map, ← List.map_drop, ← nodes_eq_map]
        exact nodes_areTyped ih
      · rw [nodes_eq_map, Operator.Interpolate.places_map] at hNode
        obtain ⟨place, hPlace, rfl⟩ := List.mem_map.mp hNode
        exact hPlaces place hPlace

end Vocabulary

namespace Glsl

variable {stage : Stage} {codes : LiteralTable} {type : DataType}

/-- The text of a finite number has a point, so it is a float. -/
theorem type?_literalTree_number {x : Float} (hFinite : (Datum.ofDouble x).isFinite) :
    (literalTree (Glsl.number x)).type? (Leaf.type? Shader.viewUniforms) = some .float := by
  obtain ⟨sign, magnitude, hText, hSign, hPointed⟩ := number_form hFinite
  obtain ⟨c, rest, hMagnitude, hDigit⟩ := exists_cons_of_isNumeral (isNumeral_of_isPointed hPointed)
  have hPoint : '.' ∈ magnitude.toList := by
    obtain ⟨whole, fraction, hEq, _⟩ := hPointed
    simp [hEq]
  rcases hSign with rfl | rfl
  · rw [hText, String.empty_append, literalTree]
    split
    · rename_i hEq
      rw [hMagnitude] at hEq
      exact absurd (List.cons.inj hEq).1 (ne_of_isDigit hDigit (by decide))
    · simp [SyntaxTree.type?, Leaf.type?, hPoint]
  · have hList : ("-" ++ magnitude).toList = '-' :: magnitude.toList := String.toList_append
    rw [hText, literalTree, hList]
    refine SyntaxTree.type?_minus_eq_some.mpr ⟨?_, by decide⟩
    simp [SyntaxTree.type?, Leaf.type?, hPoint]

/-- What an atom is read as has the type of the atom. -/
theorem Atom.type?_tree {a : Atom} (hType : a.type? = some type)
    (hFinite : ∀ x, a = .number x → (Datum.ofDouble x).isFinite) :
    (a.tree stage codes).type? (Leaf.type? Shader.viewUniforms) = some type := by
  cases a with
  | numeral text => exact hType
  | number x =>
      cases hType
      exact type?_literalTree_number (hFinite x rfl)
  | code s =>
      cases hType
      exact type?_literalTree_number (LiteralTable.isFinite_codeNumber _)
  | truth b => exact hType
  | attributeRef name => cases hType
  | uniform name => exact hType

/-- An atom that has a type is no input of the style, so its text is read as it should be. -/
theorem Atom.IsFrom.isReadable_of_type {events : List Event} {a : Atom} (hFrom : a.IsFrom events)
    (hType : a.type? = some type) (hFinite : ∀ x, a = .number x → (Datum.ofDouble x).isFinite) :
    a.IsReadable stage codes := by
  rcases hFrom with hPlain | ⟨event, _, hAtom⟩
  · exact hPlain.isReadable hFinite
  · cases event with
    | attributeRef name =>
        cases hAtom
        cases hType
    | variableRef name =>
        cases hAtom
        have hNames :
            Shader.declaredNames Shader.viewUniforms = ["u_time", "u_zoom", "u_resolution"] := by
          decide
        have hName := mem_declaredNames_of_type hType
        rw [hNames] at hName
        exact (Atom.IsPlain.view hName).isReadable hFinite
    | literalCode s => exact Atom.isReadable_of_event hAtom (by rintro _ (h | h) <;> cases h)
    | trace text => cases hAtom

end Glsl

/-- A phrase whose atoms are readable is read in just one way. -/
theorem Gives.derives_iff {script : Script Phrase} {tree : SyntaxTree Atom} {source : Expression}
    {phrase : Phrase} (h : Gives script tree source phrase) {stage : Stage} {codes : LiteralTable}
    (hReadable : ∀ a ∈ tree.leaves, a.IsFrom script.events → a.IsReadable stage codes) :
    ∃ tokens, scan (phrase.text stage codes) = some tokens ∧
      ∀ other, Derives 0 tokens other ↔ other = tree.bind (Atom.tree stage codes) := by
  have hFits : phrase.Fits (Atom.IsReadable stage codes) 7 := by
    refine h.fits.and_leaves.imp fun a hAtom => ?_
    exact hReadable a (h.erase ▸ hAtom.2) hAtom.1
  have hRead := hFits.isRead
  have hDerives := h.erase ▸ hRead.derives.of_le (Nat.zero_le 7)
  refine ⟨_, hRead.scans, fun other => ⟨fun hOther => ?_, fun hOther => hOther ▸ hDerives⟩⟩
  exact derives_unique hDerives hOther

/-- The scalar types are held by floats, truth values and vectors of four floats. -/
theorem ValueType.mem_of_dataType? {t : ValueType} {type : DataType} (h : t.dataType? = some type) :
    type ∈ [DataType.float, .bool, .vec4] := by
  cases t <;> cases h <;> decide

/-- Type soundness of the scalar language. Under a hint that meets the types of the expression, the
text that it is lowered to is read in just one way, as a well typed tree. Its type is that of a type
which inference and the hint agree on, and branches of conditionals and ends of mixtures have one
type. -/
theorem Registry.lower_well_typed {e : Expression} {hint : Option TypeSet} {types : TypeSet}
    {state final : State} {text : String} (hScalar : e.IsScalar)
    (hTypes : Registry.builtin.infer e = .ok types) (hMeets : (hint.getD .any).meets types)
    (hFinite : ∀ x, .number x ∈ (Vocabulary.standard.tree e hint).leaves →
      (Datum.ofDouble x).isFinite)
    (hLower : Registry.builtin.lower e hint state = .ok text final) :
    ∃ tokens tree type, scan text = some tokens ∧
      (∀ other, Derives 0 tokens other ↔ other = tree) ∧
      tree.type? (Leaf.type? Shader.viewUniforms) = some type ∧
      type ∈ [DataType.float, .bool, .vec4] ∧
      (∃ t, t ∈ types &&& hint.getD .any ∧ t.dataType? = some type) ∧
      (∀ test yes no, .conditional test yes no ∈ tree.subtrees →
        ∃ own, yes.type? (Leaf.type? Shader.viewUniforms) = some own ∧
          no.type? (Leaf.type? Shader.viewUniforms) = some own) ∧
      ∀ args, .call "mix" args ∈ tree.subtrees →
        ∃ below above weight own, args = [below, above, weight] ∧
          below.type? (Leaf.type? Shader.viewUniforms) = some own ∧
          above.type? (Leaf.type? Shader.viewUniforms) = some own := by
  obtain ⟨phrase, hPhrase, _, rfl⟩ := Vocabulary.standard.lower_eq_ok hLower
  have hGives := Vocabulary.node_isSound e hint phrase hPhrase
  obtain ⟨own, type, hOwn, hSuits, hTree⟩ := Vocabulary.node_isTyped hScalar hint phrase hPhrase
  obtain rfl := Except.ok.inj (hTypes.symm.trans hOwn)
  have hNumbers : ∀ a ∈ (Vocabulary.standard.tree e hint).leaves, ∀ x, a = .number x →
      (Datum.ofDouble x).isFinite := fun a hLeaf x hx => hFinite x (hx ▸ hLeaf)
  have hReadable : ∀ a ∈ (Vocabulary.standard.tree e hint).leaves,
      a.IsFrom (Vocabulary.standard.script e hint).events →
      a.IsReadable final.scope.stage final.literals := by
    intro a hLeaf hFrom
    obtain ⟨_, hAtom⟩ :=
      SyntaxTree.exists_type?_of_mem_subtrees hTree (SyntaxTree.leaf_mem_subtrees hLeaf)
    exact hFrom.isReadable_of_type hAtom (hNumbers a hLeaf)
  obtain ⟨tokens, hScan, hDerives⟩ := hGives.derives_iff hReadable
  have hRead : ((Vocabulary.standard.tree e hint).bind
      (Atom.tree final.scope.stage final.literals)).type? (Leaf.type? Shader.viewUniforms) =
      some type :=
    SyntaxTree.type?_bind hTree fun a hLeaf _ hAtom => Atom.type?_tree hAtom (hNumbers a hLeaf)
  obtain ⟨t, hMem, hType⟩ := hSuits.exists_mem hMeets
  refine ⟨tokens, _, type, hScan, hDerives, hRead, ValueType.mem_of_dataType? hType,
    ⟨t, hMem, hType⟩, fun _ _ _ hPart => ?_, fun _ hPart => ?_⟩
  · exact SyntaxTree.branches_agree hRead hPart
  · exact SyntaxTree.ends_agree hRead hPart

/-- A blend from a named colour to a choice of colours that hangs on a match. -/
def Expression.sampleBlend : Expression :=
  .call "interpolate" [.call "exponential" [.number 2], .call "zoom" [], .number 5, .string "red",
    .call "+" [.number 5, .number 4],
    .call "case" [
      .call "==" [.call "match" [.string "red", .string "blue", .number 1, .number (-2)],
        .number 1],
      .call "color" [.number 255, .number 0, .number 51], .string "blue"]]

theorem Expression.isScalar_sampleBlend : Expression.sampleBlend.IsScalar := by
  have hMatch :
      IsScalar (.call "match" [.string "red", .string "blue", .number 1, .number (-2)]) := by
    refine .matching ?_ ?_
    · simp only [List.mem_cons, List.not_mem_nil, or_false, forall_eq_or_imp, forall_eq]
      exact ⟨.string _, .string _, .number _, .number _⟩
    · have hString : ∀ s : String, ∃ types, Registry.builtin.infer (.string s) = .ok types ∧
          (.number ∈ types ∨ .string ∈ types) := by
        intro s
        refine ⟨stringTypes s, rfl, .inr ?_⟩
        unfold stringTypes
        split <;> decide
      show ∀ e ∈ [Expression.string "red", .string "blue"], _
      simp only [List.mem_cons, List.not_mem_nil, or_false, forall_eq_or_imp, forall_eq]
      exact ⟨hString _, hString _⟩
  have hCall : ∀ (b : Builtin) (args : List Expression), b.isScalar → (∀ arg ∈ args, IsScalar arg) →
      IsScalar (.call b.name args) := fun _ _ => .call
  have hColour : IsScalar (.call "color" [.number 255, .number 0, .number 51]) := by
    refine hCall .colour _ rfl ?_
    simp only [List.mem_cons, List.not_mem_nil, or_false, forall_eq_or_imp, forall_eq]
    exact ⟨.number _, .number _, .number _⟩
  have hCase : IsScalar (.call "case" [
      .call "==" [.call "match" [.string "red", .string "blue", .number 1, .number (-2)],
        .number 1],
      .call "color" [.number 255, .number 0, .number 51], .string "blue"]) := by
    refine hCall .casewise _ rfl ?_
    simp only [List.mem_cons, List.not_mem_nil, or_false, forall_eq_or_imp, forall_eq]
    refine ⟨hCall .equal _ rfl ?_, hColour, .string _⟩
    simp only [List.mem_cons, List.not_mem_nil, or_false, forall_eq_or_imp, forall_eq]
    exact ⟨hMatch, .number _⟩
  refine .interpolate ?_ ?_
  · simp only [List.drop_succ_cons, List.drop_zero, List.mem_cons, List.not_mem_nil, or_false,
      forall_eq_or_imp, forall_eq]
    refine ⟨hCall .zoom [] rfl (List.forall_mem_nil _), .number _, .string _,
      hCall .add _ rfl ?_, hCase⟩
    simp only [List.mem_cons, List.not_mem_nil, or_false, forall_eq_or_imp, forall_eq]
    exact ⟨.number _, .number _⟩
  · show ∀ e ∈ [Expression.call "zoom" [], .number 5, .call "+" [.number 5, .number 4]], _
    simp only [List.mem_cons, List.not_mem_nil, or_false, forall_eq_or_imp, forall_eq]
    exact ⟨rfl, rfl, rfl⟩

/-- Whether an atom is finite if it is a number. -/
def Glsl.Atom.isFinite : Atom → Bool
  | .number x => (Datum.ofDouble x).isFinite
  | _ => true

theorem Registry.lower_well_typed_sampleBlend :
    ∃ text final tokens tree, Registry.builtin.infer .sampleBlend = .ok .colour ∧
      Registry.builtin.lower .sampleBlend (some (.colour ||| .boolean)) (State.fresh .vertex) =
        .ok text final ∧
      text = "mix(vec4(1.0, 0.0, 0.0, 1.0), (((0.0 == 1.0 ? 1.0 : -2.0) == 1.0) ? " ++
        "vec4(255.0 / 255.0, 0.0 / 255.0, 51.0 / 255.0, 1.0) : vec4(0.0, 0.0, 1.0, 1.0)), " ++
        "pow(clamp((u_zoom - 5.0) / ((5.0 + 4.0) - 5.0), 0.0, 1.0), 2.0))" ∧
      scan text = some tokens ∧ Derives 0 tokens tree ∧
      tree.type? (Leaf.type? Shader.viewUniforms) = some .vec4 := by
  have hTypes : ∃ types, Registry.builtin.infer .sampleBlend = .ok types ∧ types = .colour :=
    ⟨_, rfl, by decide +kernel⟩
  obtain ⟨_, hTypes, rfl⟩ := hTypes
  have hLower : ∃ text final,
      Registry.builtin.lower .sampleBlend (some (.colour ||| .boolean)) (State.fresh .vertex) =
        .ok text final ∧
      text = "mix(vec4(1.0, 0.0, 0.0, 1.0), (((0.0 == 1.0 ? 1.0 : -2.0) == 1.0) ? " ++
        "vec4(255.0 / 255.0, 0.0 / 255.0, 51.0 / 255.0, 1.0) : vec4(0.0, 0.0, 1.0, 1.0)), " ++
        "pow(clamp((u_zoom - 5.0) / ((5.0 + 4.0) - 5.0), 0.0, 1.0), 2.0))" :=
    ⟨_, _, rfl, by decide +kernel⟩
  obtain ⟨text, final, hLower, hText⟩ := hLower
  have hFinite : ∀ x, .number x ∈ (Vocabulary.standard.tree .sampleBlend
      (some (.colour ||| .boolean))).leaves → (Datum.ofDouble x).isFinite := by
    have hAll : (Vocabulary.standard.tree .sampleBlend (some (.colour ||| .boolean))).leaves.all
        Atom.isFinite := by decide +kernel
    exact fun x hx => List.all_eq_true.mp hAll (.number x) hx
  obtain ⟨tokens, tree, type, hScan, hDerives, hTree, _, ⟨t, hMem, hType⟩, _⟩ :=
    Registry.lower_well_typed Expression.isScalar_sampleBlend hTypes (by decide) hFinite hLower
  have hColour : t = .colour := by
    rw [TypeSet.mem_and, TypeSet.colour, TypeSet.mem_single] at hMem
    exact hMem.1
  subst hColour
  cases hType
  exact ⟨text, final, tokens, tree, hTypes, hLower, hText, hScan, (hDerives tree).mpr rfl, hTree⟩

end PointStyle
