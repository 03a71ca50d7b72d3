import PointStyle.Proofs.Expression.RoundTrip
import PointStyle.Proofs.Json.Order
import PointStyle.Style.Compile

/-! Styles that are written as JSON and read again. A record is read from its members in whatever
order they stand, and each member that was left out stands for a default; so a style is the same
after it was written and read, and it compiles to the same programs. -/
namespace PointStyle

/-- Which value is stored makes no difference to the names. -/
theorem Table.names_insert_congr {α : Type} (table : Table α) (name : String) (value other : α) :
    (table.insert name value).names = (table.insert name other).names := by
  induction table with
  | nil => rfl
  | cons entry rest ih =>
      obtain ⟨key, old⟩ := entry
      rw [insert, insert]
      split
      · rfl
      · split
        · rfl
        · exact congrArg (key :: ·) ih

namespace Json

section Readers

variable {ε α : Type} {value : Json} {a : α}

/-- A value that is not null is read as one that is there. -/
theorem Reader.optional_of_ne_null {reader : Reader ε α} (hNull : value ≠ .null)
    (h : reader .value (Draft.ofJson value) = .ok a) :
    reader.optional .value (Draft.ofJson value) = .ok (some a) := by
  have hSome : some <$> reader .value (Draft.ofJson value) = .ok (some a) := by
    rw [h]
    rfl
  cases value with
  | null => exact absurd rfl hNull
  | _ => exact hSome

/-- An object that is held in memory is read as a table as it is. -/
theorem Reader.table_of_isHeld {members : Table Json} (h : (Json.object members).IsHeld) :
    (Reader.table : Reader ε (Table Json)) .value (Draft.ofJson (.object members)) =
      .ok members := by
  have hOrder : Table.ofEntries (inOrderMembers members) = members := Json.object.inj h.inOrder_eq
  have hMembers : Draft.toMembers .value [] (Draft.ofMembers members) = .ok members := by
    rw [Draft.toMembers_ofMembers fun member _ => Draft.toJson_ofJson member.2]
    exact congrArg _ hOrder
  show ofFault (Draft.toMembers .value [] (Draft.ofMembers members) >>= _) = _
  rw [hMembers]
  rfl

end Readers

end Json

namespace Expression

/-- A finite expression is written as a value that is held in memory. -/
theorem isHeld_toJson (e : Expression) (h : e.IsFinite) : e.toJson.IsHeld := by
  have hDouble : ∀ {x : Float}, x.isFinite = true → (Json.ofDouble x).IsHeld := by
    intro x hx
    rw [ofDouble_eq_number_iff.mpr ⟨hx, rfl⟩]
    exact .number hx
  induction e with
  | number x => exact hDouble (isFinite_number.mp h)
  | bool b => exact .bool b
  | string s => exact .string s
  | numberArray xs =>
      apply Json.IsHeld.array
      rw [List.forall_mem_map]
      exact fun x hx => hDouble (isFinite_numberArray.mp h x hx)
  | call operator args ih =>
      rw [toJson, toItems_eq_map]
      apply Json.IsHeld.array
      rw [List.forall_mem_cons, List.forall_mem_map]
      exact ⟨.string operator, fun arg hArg => ih arg hArg (isFinite_call.mp h arg hArg)⟩

/-- An expression of finite numbers is not written as null. -/
theorem toJson_ne_null {e : Expression} (h : e.IsFinite) : e.toJson ≠ .null := by
  intro hNull
  have hMirrors := mirrors_toJson e h
  rw [hNull] at hMirrors
  cases hMirrors

end Expression

namespace Style

open Json (Draft Record)

section Members

variable {α β : Type} {names : List String} {name : String}

/-- A finite expression is read as it was written. -/
theorem expressionReader_toJson {e : Expression} (h : e.IsFinite) :
    expressionReader .value (Draft.ofJson e.toJson) = .ok e := by
  have hValue := Draft.toJson_ofJson e.toJson
  rw [(e.isHeld_toJson h).inOrder_eq] at hValue
  have hRead := (Expression.ofJson_eq_ok_iff e.toJson e).mpr (e.mirrors_toJson h)
  show (Json.ofFault (Draft.toJson .value (Draft.ofJson e.toJson)) >>= _) = _
  rw [hValue]
  show (Expression.ofJson e.toJson).mapError Json.DocumentError.content = _
  rw [hRead]
  rfl

/-- What is known of a field once the members of some names are read. -/
def known (names : List String) (name : String) (content : α) : Option α :=
  if name ∈ names then some content else none

theorem known_of_mem {content : α} (h : name ∈ names) :
    known names name content = some content := if_pos h

theorem known_of_not_mem {content : α} (h : name ∉ names) :
    known names name content = none := if_neg h

/-- A field that is left out only if it has no value has its value. -/
theorem join_known {content : Option α} (h : ∀ a, content = some a → name ∈ names) :
    (known names name content).join = content := by
  by_cases hName : name ∈ names
  · rw [known_of_mem hName, Option.join_some]
  · rw [known_of_not_mem hName, Option.join_none]
    cases content with
    | none => rfl
    | some a => exact absurd (h a rfl) hName

/-- A member that may be left out is read if it is there and its field is still open. -/
theorem reads_member {record : Record ExpressionError β α} {after : List String → β} {γ : Type}
    {write : γ → Json} {content : Option γ} {isRequired : Bool} {get : β → Option (Option γ)}
    {set : β → Option (Option γ) → β} {reader : Json.Reader ExpressionError γ}
    (hField : record.fields.find? (·.name = name) =
      some (.storing name isRequired get set reader.optional))
    (hNull : ∀ c ∈ content, write c ≠ .null)
    (hReader : ∀ c ∈ content, reader .value (Draft.ofJson (write c)) = .ok c)
    (hGet : ∀ names, name ∉ names → get (after names) = none)
    (hSet : ∀ names, set (after names) (some content) = after (name :: names)) :
    ∀ member ∈ Symbol.member name write content, record.Reads after member := by
  cases content with
  | none => exact List.forall_mem_nil _
  | some c =>
      intro member hMember
      cases List.mem_singleton.mp hMember
      have hRead := Json.Reader.optional_of_ne_null (hNull c rfl) (hReader c rfl)
      exact Record.reads_storing hField hRead hGet hSet

/-- A member that holds an expression is read if the expression is finite. -/
theorem reads_expression {record : Record ExpressionError β α} {after : List String → β}
    {content : Option Expression} {isRequired : Bool} {get : β → Option (Option Expression)}
    {set : β → Option (Option Expression) → β}
    (hField : record.fields.find? (·.name = name) =
      some (.storing name isRequired get set optionalExpression))
    (hFinite : ∀ e ∈ content, e.IsFinite) (hGet : ∀ names, name ∉ names → get (after names) = none)
    (hSet : ∀ names, set (after names) (some content) = after (name :: names)) :
    ∀ member ∈ Symbol.member name Expression.toJson content, record.Reads after member :=
  reads_member hField (fun e he => Expression.toJson_ne_null (hFinite e he))
    (fun e he => expressionReader_toJson (hFinite e he)) hGet hSet

/-- A member has its name or is left out. -/
theorem names_member {write : α → Json} (content : Option α) :
    (Table.names (Symbol.member name write content)).Sublist [name] := by
  cases content with
  | none => exact List.nil_sublist _
  | some a => exact .refl _

theorem mem_names_member {write : α → Json} {content : Option α} {a : α} (h : content = some a) :
    name ∈ (Symbol.member name write content).map (·.1) := by
  cases h
  exact List.mem_singleton_self _

theorem isHeld_member {write : α → Json} {content : Option α}
    (h : ∀ a ∈ content, (write a).IsHeld) :
    ∀ entry ∈ Symbol.member name write content, entry.2.IsHeld := by
  cases content with
  | none => exact List.forall_mem_nil _
  | some a =>
      intro entry hEntry
      cases List.mem_singleton.mp hEntry
      exact h a rfl

/-- The member of a finite expression is held as it should. -/
theorem isHeld_expression {content : Option Expression} (h : ∀ e ∈ content, e.IsFinite) :
    ∀ entry ∈ Symbol.member name Expression.toJson content, entry.2.IsHeld :=
  isHeld_member fun e he => e.isHeld_toJson (h e he)

end Members

namespace Symbol

variable {symbol : Symbol}

/-- The expressions of a symbol. -/
def expressions (symbol : Symbol) : List Expression :=
  symbol.size.toList ++ symbol.color.toList ++ symbol.opacity.toList ++ symbol.rotation.toList ++
    symbol.offset.toList ++ symbol.textureCoord.toList

/-- The members that a symbol is written as. -/
def members (symbol : Symbol) : Table Json :=
  [("symbolType", .string symbol.symbolType)] ++
  member "size" Expression.toJson symbol.size ++
  member "color" Expression.toJson symbol.color ++
  member "opacity" Expression.toJson symbol.opacity ++
  member "rotation" Expression.toJson symbol.rotation ++
  member "offset" Expression.toJson symbol.offset ++
  member "textureCoord" Expression.toJson symbol.textureCoord ++
  [("rotateWithView", .bool symbol.rotateWithView)] ++
  member "src" Json.string symbol.src ++
  member "crossOrigin" Json.string symbol.crossOrigin

theorem toJson_eq (symbol : Symbol) : symbol.toJson = .object symbol.members := rfl

/-- What is known of a symbol once the members of some names are read. -/
def knownAfter (symbol : Symbol) (names : List String) : Partial where
  symbolType := known names "symbolType" symbol.symbolType
  size := known names "size" symbol.size
  color := known names "color" symbol.color
  opacity := known names "opacity" symbol.opacity
  rotation := known names "rotation" symbol.rotation
  offset := known names "offset" symbol.offset
  textureCoord := known names "textureCoord" symbol.textureCoord
  rotateWithView := known names "rotateWithView" symbol.rotateWithView
  src := known names "src" symbol.src
  crossOrigin := known names "crossOrigin" symbol.crossOrigin

/-- Each member of a symbol is read, whichever members have been read before. -/
theorem reads_members (h : ∀ e ∈ symbol.expressions, e.IsFinite) :
    ∀ entry ∈ symbol.members, record.Reads symbol.knownAfter entry := by
  simp only [expressions, List.forall_mem_append, Option.mem_toList, and_assoc] at h
  obtain ⟨hSize, hColour, hOpacity, hRotation, hOffset, hTextureCoord⟩ := h
  have hGet : ∀ {α : Type} {name : String} {content : α} (names : List String), name ∉ names →
      known names name content = none := fun _ => known_of_not_mem
  simp only [members, List.forall_mem_append, List.forall_mem_singleton, and_assoc]
  refine ⟨?_, ?_, ?_, ?_, ?_, ?_, ?_, ?_, ?_, ?_⟩
  · exact Record.reads_storing rfl (by rfl : Json.Reader.string _ _ = .ok symbol.symbolType) hGet
      (by simp [knownAfter, known])
  · exact reads_expression rfl hSize hGet (by simp [knownAfter, known])
  · exact reads_expression rfl hColour hGet (by simp [knownAfter, known])
  · exact reads_expression rfl hOpacity hGet (by simp [knownAfter, known])
  · exact reads_expression rfl hRotation hGet (by simp [knownAfter, known])
  · exact reads_expression rfl hOffset hGet (by simp [knownAfter, known])
  · exact reads_expression rfl hTextureCoord hGet (by simp [knownAfter, known])
  · exact Record.reads_storing rfl (by rfl : Json.Reader.bool _ _ = .ok symbol.rotateWithView) hGet
      (by simp [knownAfter, known])
  · exact reads_member rfl (by simp) (fun _ _ => rfl) hGet (by simp [knownAfter, known])
  · exact reads_member rfl (by simp) (fun _ _ => rfl) hGet (by simp [knownAfter, known])

theorem nodup_names_members (symbol : Symbol) : symbol.members.names.Nodup := by
  have hSublist :
      symbol.members.names.Sublist
      (["symbolType"] ++ ["size"] ++ ["color"] ++ ["opacity"] ++ ["rotation"] ++ ["offset"] ++
      ["textureCoord"] ++ ["rotateWithView"] ++ ["src"] ++ ["crossOrigin"]) := by
    simp only [members, Table.names, List.map_append]
    repeat' apply List.Sublist.append
    any_goals exact names_member _
    all_goals exact .refl _
  exact hSublist.nodup (by decide)

/-- The members that are written are enough to build the symbol. -/
theorem build_knownAfter {names : List String}
    (h : ∀ name, name ∈ names ↔ name ∈ symbol.members.names) :
    record.build (symbol.knownAfter names) = .ok symbol := by
  have hType : known names "symbolType" symbol.symbolType = some symbol.symbolType :=
    known_of_mem ((h _).mpr List.mem_cons_self)
  have hView : known names "rotateWithView" symbol.rotateWithView = some symbol.rotateWithView := by
    apply known_of_mem
    rw [h]
    simp only [members, Table.names, List.map_append, List.map_cons, List.mem_append, List.mem_cons,
      true_or, or_true]
  simp only [record, knownAfter, hType, hView, Option.getD_some]
  rw [join_known, join_known, join_known, join_known, join_known, join_known,
    join_known, join_known]
  all_goals
    intro content hContent
    rw [h]
    simp only [members, Table.names, List.map_append, List.mem_append, mem_names_member hContent,
      true_or, or_true]

theorem isHeld_members (h : ∀ e ∈ symbol.expressions, e.IsFinite) :
    ∀ entry ∈ symbol.members, entry.2.IsHeld := by
  simp only [expressions, List.forall_mem_append, Option.mem_toList, and_assoc] at h
  obtain ⟨hSize, hColour, hOpacity, hRotation, hOffset, hTextureCoord⟩ := h
  simp only [members, List.forall_mem_append, List.forall_mem_singleton, and_assoc]
  exact ⟨.string _, isHeld_expression hSize, isHeld_expression hColour, isHeld_expression hOpacity,
    isHeld_expression hRotation, isHeld_expression hOffset,
    isHeld_expression hTextureCoord, .bool _,
    isHeld_member fun s _ => .string s, isHeld_member fun s _ => .string s⟩

/-- A symbol is read from its members in any order. -/
theorem read_members {entries : Table Json} (hPerm : entries.Perm symbol.members)
    (h : ∀ e ∈ symbol.expressions, e.IsFinite) :
    record.read .value (Draft.ofJson (.object entries)) = .ok symbol :=
  Record.read_of_reads hPerm (reads_members h) symbol.nodup_names_members
    (by simp [record, knownAfter, known])
    fun _ => build_knownAfter

end Symbol

/-- The expressions of a style. -/
def expressions (style : Style) : List Expression :=
  style.filter.toList ++ style.symbol.expressions

/-- The members that a style is written as, around the value of its symbol. -/
def members (style : Style) (symbol : Json) : Table Json :=
  Symbol.member "filter" Expression.toJson style.filter ++
  [("variables", .object style.variableValues), ("symbol", symbol)]

/-- What is known of a style once the members of some names are read. -/
def knownAfter (style : Style) (names : List String) : Partial where
  filter := known names "filter" style.filter
  variableValues := known names "variables" style.variableValues
  symbol := known names "symbol" style.symbol

section

variable {style : Style} {value : Json} {entries : Table Json}

/-- Each member of a style is read, whichever members have been read before. -/
theorem reads_members (hFilter : ∀ e ∈ style.filter, e.IsFinite)
    (hVariables : (Json.object style.variableValues).IsHeld)
    (hSymbol : Symbol.record.read .value (Draft.ofJson value) = .ok style.symbol) :
    ∀ entry ∈ style.members value, record.Reads style.knownAfter entry := by
  have hGet : ∀ {α : Type} {name : String} {content : α} (names : List String), name ∉ names →
      known names name content = none := fun _ => known_of_not_mem
  simp only [members, List.forall_mem_append, List.forall_mem_cons]
  refine ⟨?_, ?_, ?_, List.forall_mem_nil _⟩
  · exact reads_expression rfl hFilter hGet (by simp [knownAfter, known])
  · exact Record.reads_storing rfl (Json.Reader.table_of_isHeld hVariables) hGet
      (by simp [knownAfter, known])
  · exact Record.reads_storing rfl hSymbol hGet (by simp [knownAfter, known])

theorem nodup_names_members (style : Style) (value : Json) : (style.members value).names.Nodup := by
  have hSublist : (style.members value).names.Sublist (["filter"] ++ ["variables", "symbol"]) := by
    rw [members, Table.names, List.map_append]
    exact (names_member _).append (.refl _)
  exact hSublist.nodup (by decide)

/-- A style is known once all its members are. -/
theorem build_knownAfter {names : List String}
    (h : ∀ name, name ∈ names ↔ name ∈ (style.members value).names) :
    record.build (style.knownAfter names) = .ok style := by
  have hVariables : known names "variables" style.variableValues = some style.variableValues :=
    known_of_mem ((h _).mpr (by simp [members, Table.names]))
  have hSymbol : known names "symbol" style.symbol = some style.symbol :=
    known_of_mem ((h _).mpr (by simp [members, Table.names]))
  simp only [record, knownAfter, hVariables, hSymbol, Option.getD_some]
  rw [join_known]
  intro content hContent
  rw [h]
  simp only [members, Table.names, List.map_append, List.mem_append,
    mem_names_member hContent, true_or]

/-- A style is read from its members in any order. -/
theorem read_members (hPerm : entries.Perm (style.members value))
    (hFilter : ∀ e ∈ style.filter, e.IsFinite)
    (hVariables : (Json.object style.variableValues).IsHeld)
    (hSymbol : Symbol.record.read .value (Draft.ofJson value) = .ok style.symbol) :
    ofJson (.object entries) = .ok style :=
  Record.read_of_reads hPerm (reads_members hFilter hVariables hSymbol)
    (style.nodup_names_members value)
    (by simp [record, knownAfter, known]) fun _ => build_knownAfter

/-- Putting the members of a style in order changes its symbol only. -/
theorem inOrderMembers_members (hFilter : ∀ e ∈ style.filter, e.IsFinite)
    (hVariables : (Json.object style.variableValues).IsHeld) (value : Json) :
    Json.inOrderMembers (style.members value) = style.members value.inOrder := by
  have hMember : Json.inOrderMembers (Symbol.member "filter" Expression.toJson style.filter) =
      Symbol.member "filter" Expression.toJson style.filter :=
    Json.inOrderMembers_eq_self fun entry hEntry =>
      (isHeld_expression hFilter entry hEntry).inOrder_eq
  rw [Json.inOrderMembers_eq_map] at hMember ⊢
  rw [members, List.map_append, hMember, List.map_cons, List.map_cons, hVariables.inOrder_eq]
  rfl

/-- A style is the same after it was written and read, whether its members stand in the order in
which they were written or are put in order. -/
theorem ofJson_toJson (hFinite : ∀ e ∈ style.expressions, e.IsFinite)
    (hVariables : (Json.object style.variableValues).IsHeld) :
    ofJson style.toJson = .ok style ∧ ofJson style.toJson.inOrder = .ok style := by
  rw [expressions, List.forall_mem_append] at hFinite
  simp only [Option.mem_toList] at hFinite
  obtain ⟨hFilter, hSymbol⟩ := hFinite
  constructor
  · exact read_members (.refl _) hFilter hVariables (Symbol.read_members (.refl _) hSymbol)
  · have hOrder : style.symbol.toJson.inOrder = .object (Table.ofEntries style.symbol.members) := by
      rw [Symbol.toJson_eq, Json.inOrder, Json.inOrderMembers_eq_self]
      exact fun entry hEntry => (Symbol.isHeld_members hSymbol entry hEntry).inOrder_eq
    have hRead :=
      Symbol.read_members (Table.perm_ofEntries style.symbol.nodup_names_members) hSymbol
    rw [← hOrder] at hRead
    have hValue : style.toJson.inOrder =
        .object (Table.ofEntries (style.members style.symbol.toJson.inOrder)) := by
      show (Json.object (style.members style.symbol.toJson)).inOrder = _
      rw [Json.inOrder, inOrderMembers_members hFilter hVariables]
    rw [hValue]
    exact read_members (Table.perm_ofEntries (style.nodup_names_members _)) hFilter hVariables hRead

end

/-- What a style is compiled to, but for the handle of its texture. -/
def Compiled.outline (compiled : Compiled) : Shader.Builder × List String × List String :=
  (compiled.builder, compiled.attributes, compiled.uniforms.names)

namespace Compiler

/-- Which textures there are already makes no difference to what is compiled. -/
theorem outline_compile (compiler : Compiler) (style : Style) (pool later : Texture.Pool) :
    (compiler.compile later style).result.map Compiled.outline =
      (compiler.compile pool style).result.map Compiled.outline := by
  unfold compile
  split
  · rfl
  · simp only
    split
    · rfl
    · unfold assemble
      cases textureRequest _ style.symbol compiler.defaultCrossOrigin with
      | none => rfl
      | some request =>
          simp only [bindTexture, Except.map, Compiled.outline]
          rw [Table.names_insert_congr]

end Compiler

/-- A style of finite expressions has the same filter, symbol and variables after it was written and
read, and it compiles to the same programs, attributes and uniforms, or fails for the same
reason. -/
theorem documents_round_trip (style : Style) (hFinite : ∀ e ∈ style.expressions, e.IsFinite)
    (hVariables : (Json.object style.variableValues).IsHeld) :
    ∃ again : Style, ofJson style.toJson = .ok again ∧ ofJson style.toJson.inOrder = .ok again ∧
      again.filter = style.filter ∧ again.symbol = style.symbol ∧
      again.variableValues = style.variableValues ∧
      ∀ (compiler : Compiler) (pool later : Texture.Pool),
        (compiler.compile later again).result.map Compiled.outline =
          (compiler.compile pool style).result.map Compiled.outline := by
  obtain ⟨hWritten, hOrdered⟩ := ofJson_toJson hFinite hVariables
  exact ⟨style, hWritten, hOrdered, rfl, rfl, rfl, fun compiler => compiler.outline_compile style⟩

/-- A style with a filter, a variable that is itself an object, and a symbol with some members left
out. -/
def sampleDocument : Style where
  filter := some (.call ">" [.call "get" [.string "height"], .number (Datum.ofInt 3).toDouble])
  variableValues :=
    [("limits", .object [("high", .number (.whole 9)), ("low", .null)]), ("theme", .string "dark")]
  symbol := { Symbol.ofType "image" with
    size := some (.numberArray [(Datum.ofInt 4).toDouble, (Datum.ofInt 8).toDouble])
    offset := some (.numberArray [])
    src := some "pin.png" }

theorem documents_round_trip_sampleDocument :
    (∀ e ∈ sampleDocument.expressions, e.IsFinite) ∧
    (Json.object sampleDocument.variableValues).IsHeld ∧
      ∃ again : Style, ofJson sampleDocument.toJson.inOrder = .ok again ∧
        again.symbol = sampleDocument.symbol ∧ again.filter = sampleDocument.filter := by
  have hFinite : ∀ e ∈ sampleDocument.expressions, e.IsFinite := by decide
  have hNine : (Json.Number.whole 9).IsHeld := by decide
  have hLimits : (Json.object [("high", .number (.whole 9)), ("low", .null)]).IsHeld := by
    apply Json.IsHeld.object
    · rw [Table.IsOrdered]
      decide
    · simpa using ⟨Json.IsHeld.number hNine, Json.IsHeld.null⟩
  have hVariables : (Json.object sampleDocument.variableValues).IsHeld := by
    apply Json.IsHeld.object
    · rw [Table.IsOrdered]
      decide
    · simpa [sampleDocument] using ⟨hLimits, Json.IsHeld.string _⟩
  obtain ⟨again, -, hRead, hFilter, hSymbol, -⟩ :=
    documents_round_trip sampleDocument hFinite hVariables
  exact ⟨hFinite, hVariables, again, hRead, hSymbol, hFilter⟩

end Style

end PointStyle
