import PointStyle.Json.Record
import PointStyle.Proofs.Except
import PointStyle.Proofs.Table

/-! Records that are read from drafts. A record is read member by member, and members of different
names can be read in any order. -/
namespace PointStyle

namespace Json

variable {ε α β : Type}

/-- Reading members into a table keeps it in order. -/
theorem Draft.isOrdered_toMembers {source : Source} {table result : Table Json}
    {members : List (Except Fault String × Draft)} (hTable : table.IsOrdered)
    (h : toMembers source table members = .ok result) : result.IsOrdered := by
  induction members generalizing table with
  | nil =>
      cases h
      exact hTable
  | cons member rest ih =>
      rw [toMembers] at h
      obtain ⟨name, _, h⟩ := bind_eq_ok h
      obtain ⟨value, _, h⟩ := bind_eq_ok h
      exact ih (hTable.insert name value) h

namespace Record

variable {record : Record ε β α}

section Members

variable {after : List String → β} {members : Table Json} {names : List String} {a : α}

/-- Reading a member adds its name to those that are known. -/
def Reads (record : Record ε β α) (after : List String → β) (member : String × Json) : Prop :=
  ∃ field, record.fields.find? (·.name = member.1) = some field ∧
    ∀ names, member.1 ∉ names → field.isSet (after names) = false ∧
      field.read .value (Draft.ofJson member.2) (after names) = .ok (after (member.1 :: names))

/-- A member whose field is still open is read and stored. -/
theorem reads_storing {γ : Type} {name : String} {isRequired : Bool} {get : β → Option γ}
    {set : β → Option γ → β} {reader : Reader ε γ} {value : Json} {content : γ}
    (hField : record.fields.find? (·.name = name) = some (.storing name isRequired get set reader))
    (hReader : reader .value (Draft.ofJson value) = .ok content)
    (hGet : ∀ names, name ∉ names → get (after names) = none)
    (hSet : ∀ names, set (after names) (some content) = after (name :: names)) :
    record.Reads after (name, value) := by
  refine ⟨_, hField, fun names hFresh => ⟨?_, ?_⟩⟩
  · show (get (after names)).isSome = false
    rw [hGet names hFresh, Option.isSome_none]
  · show (reader .value (Draft.ofJson value) >>= _) = .ok (after (name :: names))
    rw [hReader, ← hSet names]
    rfl

/-- Members of different names are read one by one, in any order. -/
theorem readMembers_of_reads (hReads : ∀ member ∈ members, record.Reads after member)
    (hNodup : members.names.Nodup) (hFresh : ∀ member ∈ members, member.1 ∉ names) :
    record.readMembers .value (after names) (Draft.ofMembers members) =
      .ok (after (members.names.reverse ++ names)) := by
  induction members generalizing names with
  | nil => rfl
  | cons member rest ih =>
      obtain ⟨⟨field, hField, hMember⟩, hOthers⟩ := List.forall_mem_cons.mp hReads
      obtain ⟨hName, hRest⟩ := List.nodup_cons.mp hNodup
      obtain ⟨hNew, hLater⟩ := List.forall_mem_cons.mp hFresh
      obtain ⟨hUnset, hRead⟩ := hMember names hNew
      have hNext : ∀ later ∈ rest, later.1 ∉ member.1 :: names := by
        intro later hMem hIn
        rcases List.mem_cons.mp hIn with hSame | hOld
        · exact hName (List.mem_map.mpr ⟨later, hMem, hSame⟩)
        · exact hLater later hMem hOld
      rw [Draft.ofMembers, readMembers,
        show ofFault (.ok member.1) = pure member.1 from rfl, pure_bind]
      simp only [hField, hUnset]
      show (field.read .value (Draft.ofJson member.2) (after names) >>= _) = _
      rw [hRead]
      show record.readMembers .value (after (member.1 :: names)) (Draft.ofMembers rest) = _
      rw [ih hOthers hRest hNext]
      simp [Table.names]

/-- A record is read from its members in any order, once they are enough to build it. -/
theorem read_of_reads {written : Table Json} (hPerm : members.Perm written)
    (hReads : ∀ member ∈ written, record.Reads after member) (hNodup : written.names.Nodup)
    (hBlank : record.blank = after [])
    (hBuild : ∀ names, (∀ name, name ∈ names ↔ name ∈ written.names) →
      record.build (after names) = .ok a) :
    record.read .value (Draft.ofJson (.object members)) = .ok a := by
  have hNames : members.names.Perm written.names := hPerm.map _
  have hMembers :=
    readMembers_of_reads (fun member hMember => hReads member (hPerm.mem_iff.mp hMember))
    (hNames.nodup_iff.mpr hNodup) fun _ _ => List.not_mem_nil
  have hAll := hBuild (members.names.reverse ++ []) fun name => by
    rw [List.append_nil, List.mem_reverse, hNames.mem_iff]
  show (record.readMembers .value record.blank (Draft.ofMembers members) >>= _) = _
  rw [hBlank, hMembers]
  show (record.build _).mapError DocumentError.missingField = _
  rw [hAll]
  rfl

end Members

end Record

end Json

end PointStyle
