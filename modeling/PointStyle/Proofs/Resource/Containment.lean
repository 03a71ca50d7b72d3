import PointStyle.Proofs.Except
import PointStyle.Resource.Directory

/-! What a directory gives out. A root that was found when the directory was opened is never left.
A root that came later is only guarded by the wording of the source, which has to go down; what is
given out still stands below it unless a link on the way leads elsewhere. -/
namespace PointStyle

namespace Path

theorem split_ne_nil (text : List Char) : split text ≠ [] := by
  cases text with
  | nil => exact List.cons_ne_nil _ _
  | cons c rest =>
      rw [split]
      split
      · exact List.cons_ne_nil _ _
      · split <;> exact List.cons_ne_nil _ _

/-- A text is split at each of its slashes. -/
theorem split_append_slash (first second : List Char) :
    split (first ++ '/' :: second) = split first ++ split second := by
  induction first with
  | nil => simp [split]
  | cons c rest ih =>
      by_cases hSlash : c = '/'
      · simp [split, hSlash, ih]
      · obtain ⟨head, others, hSplit⟩ := List.exists_cons_of_ne_nil (split_ne_nil rest)
        simp [split, hSlash, ih, hSplit]

theorem parts_ne_nil (path : String) : parts path ≠ [] := by
  rw [parts, ne_eq, List.map_eq_nil_iff]
  exact split_ne_nil _

/-- A joined path has the parts of both, except that nothing stands after a last slash. -/
theorem parts_join (path : String) {next : String} (hNext : isAbsolute next = false) :
    ∃ front, parts (join path next) = front ++ parts next ∧
      (parts path = front ∨ parts path = front ++ [""]) := by
  rw [join, if_neg (Bool.eq_false_iff.mp hNext)]
  by_cases hEmpty : path = ""
  · subst hEmpty
    exact ⟨[], by simp, .inr rfl⟩
  · by_cases hSlash : path.toList.getLast? = some '/'
    · obtain ⟨front, hPath⟩ := List.getLast?_eq_some_iff.mp hSlash
      refine ⟨(split front).map String.ofList, ?_, .inr ?_⟩
      · rw [if_pos (.inr hSlash), parts, String.toList_append, hPath, List.append_assoc,
          List.singleton_append, split_append_slash, List.map_append, parts]
      · rw [parts, hPath, split_append_slash, List.map_append]
        rfl
    · rw [if_neg (by simp [hEmpty, hSlash])]
      refine ⟨parts path, ?_, .inl rfl⟩
      rw [parts, String.toList_append, String.toList_append, List.append_assoc]
      show (split (path.toList ++ '/' :: next.toList)).map String.ofList = _
      rw [split_append_slash, List.map_append]
      rfl

end Path

namespace FileTree

variable {tree : FileTree} {here place middle : Place} {links : Nat}

/-- A stretch that goes on along more parts. -/
def Stretch.extend (tree : FileTree) (more : List String) : Stretch → Except SystemError Stretch
  | .arrived place => tree.advance place more
  | .missing place rest => .ok (.missing place (rest ++ more))
  | .link parent target rest => .ok (.link parent target (rest ++ more))

/-- Parts of a path are followed one stretch after the other, up to the first link. -/
theorem advance_append (tree : FileTree) (here : Place) (first second : List String) :
    tree.advance here (first ++ second) =
      tree.advance here first >>= Stretch.extend tree second := by
  fun_induction advance tree here first with
  | case1 here => rfl
  | case2 here part rest entries hFind hSkip ih => simp [advance, hFind, hSkip, ih]
  | case3 here rest entries hFind hSkip ih => simp [advance, hFind, ih]
  | case4 here part rest entries hFind hSkip hUp hLong =>
      simp only [List.cons_append, advance, hFind, hSkip, hUp, hLong, if_true, if_false]
      rfl
  | case5 here part rest entries hFind hSkip hUp hLong hNone =>
      simp only [List.cons_append, advance, hFind, hSkip, hUp, hLong, hNone, if_false]
      rfl
  | case6 here part rest entries hFind hSkip hUp hLong target hLink =>
      simp only [List.cons_append, advance, hFind, hSkip, hUp, hLong, hLink, if_false]
      rfl
  | case7 here part rest entries hFind hSkip hUp hLong child hNoLink hChild ih =>
      simp [advance, hFind, hSkip, hUp, hLong, hChild, ih]
  | case8 here part rest bytes hFind =>
      rw [List.cons_append, advance, hFind]
      rfl
  | case9 here part rest hNoDirectory hNoFile =>
      rw [List.cons_append, advance]
      split
      · rename_i hFind
        exact absurd hFind (hNoDirectory _)
      · rename_i hFind
        exact absurd hFind (hNoFile _)
      · rfl

/-- The places on the way are below the start as long as no part goes up. -/
theorem isPrefix_of_advance {parts : List String} (hUp : ".." ∉ parts) {stretch : Stretch}
    (h : tree.advance here parts = .ok stretch) :
    (∀ place, stretch = .arrived place → here <+: place) ∧
      ∀ parent target rest, stretch = .link parent target rest → here <+: parent := by
  fun_induction advance tree here parts with
  | case1 here =>
      cases h
      exact ⟨fun _ hPlace => by cases hPlace; exact List.prefix_refl _, nofun⟩
  | case2 here part rest entries _ _ ih => exact ih (List.not_mem_of_not_mem_cons hUp) h
  | case3 => exact absurd (List.mem_cons_self ..) hUp
  | case6 here part rest entries _ _ _ _ target _ =>
      cases h
      exact ⟨nofun, fun _ _ _ hLink => by cases hLink; exact List.prefix_refl _⟩
  | case7 here part rest entries _ _ _ _ child _ _ ih =>
      obtain ⟨hArrived, hLink⟩ := ih (List.not_mem_of_not_mem_cons hUp) h
      have hDown : here <+: here ++ [part] := List.prefix_append _ _
      exact ⟨fun place hPlace => hDown.trans (hArrived place hPlace),
        fun parent target rest hEq => hDown.trans (hLink parent target rest hEq)⟩
  | case5 =>
      cases h
      exact ⟨nofun, nofun⟩
  | case4 | case8 | case9 => cases h

/-- Where a link continues: at the top if its target is absolute. -/
def linkStart (parent : Place) (target : String) : Place :=
  if Path.isAbsolute target then [] else parent

/-- Where no link is met the place is reached. -/
theorem reach_of_arrived {parts : List String} (links : Nat)
    (h : tree.advance here parts = .ok (.arrived place)) :
    tree.reach links here parts = .ok (.taken place) := by
  rw [reach.eq_def, h]

theorem reach_congr {other : Place} {parts others : List String} (links : Nat)
    (h : tree.advance here parts = tree.advance other others) :
    tree.reach links here parts = tree.reach links other others := by
  rw [reach.eq_def, reach.eq_def, h]

/-- Where a link is met the path goes on through its target, with one link less to follow. -/
theorem reach_of_link {parts rest : List String} {parent : Place} {target : String}
    (h : tree.advance here parts = .ok (.link parent target rest)) :
    tree.reach (links + 1) here parts =
      tree.reach links (linkStart parent target) (Path.parts target ++ rest) := by
  rw [reach.eq_def, h]
  rfl

/-- A path leads to a place directly or through a link. -/
theorem reach_cases {parts : List String} (h : tree.reach links here parts = .ok (.taken place)) :
    tree.advance here parts = .ok (.arrived place) ∨
      ∃ parent target rest left, links = left + 1 ∧
        tree.advance here parts = .ok (.link parent target rest) := by
  rw [reach.eq_def] at h
  split at h
  · cases h
  · rename_i hArrived
    cases h
    exact .inl hArrived
  · cases h
  · cases h
  · rename_i parent target rest hLink
    split at h
    · cases h
    · exact .inr ⟨parent, target, rest, _, rfl, hLink⟩

/-- The first parts of a path that leads somewhere lead somewhere or to a link. -/
theorem advance_of_reach_append {first second : List String}
    (h : tree.reach links here (first ++ second) = .ok (.taken place)) :
    (∃ middle, tree.advance here first = .ok (.arrived middle)) ∨
      ∃ parent target rest left, links = left + 1 ∧
        tree.advance here first = .ok (.link parent target rest) := by
  rcases reach_cases h with hWhole | ⟨_, _, _, left, hLinks, hWhole⟩
  all_goals
    rw [advance_append] at hWhole
    obtain ⟨stretch, hFirst, hExtend⟩ := bind_eq_ok hWhole
  · cases stretch with
    | arrived middle => exact .inl ⟨middle, hFirst⟩
    | missing | link => cases hExtend
  · cases stretch with
    | arrived middle => exact .inl ⟨middle, hFirst⟩
    | missing => cases hExtend
    | link parent target rest => exact .inr ⟨parent, target, rest, left, hLinks, hFirst⟩

/-- A path that leads somewhere leads somewhere all along. From where its first parts lead, the
others are followed through what is left of the links. -/
theorem reach_append {first second : List String}
    (h : tree.reach links here (first ++ second) = .ok (.taken place)) :
    ∃ middle left, tree.reach links here first = .ok (.taken middle) ∧
      ∀ other, tree.reach links here (first ++ other) = tree.reach left middle other := by
  induction links using Nat.strongRecOn generalizing here first with
  | ind links ih =>
      rcases advance_of_reach_append h with
        ⟨middle, hFirst⟩ | ⟨parent, target, rest, left, rfl, hFirst⟩
      · refine ⟨middle, links, reach_of_arrived links hFirst, fun other => reach_congr links ?_⟩
        rw [advance_append, hFirst]
        rfl
      · have hLink : ∀ other, tree.reach (left + 1) here (first ++ other) =
            tree.reach left (linkStart parent target) (Path.parts target ++ rest ++ other) := by
          intro other
          rw [List.append_assoc]
          refine reach_of_link ?_
          rw [advance_append, hFirst]
          rfl
        rw [hLink] at h
        obtain ⟨middle, left', hReach, hOther⟩ := ih left (Nat.lt_succ_self left) h
        exact ⟨middle, left', (reach_of_link hFirst).trans hReach,
          fun other => (hLink other).trans (hOther other)⟩

/-- Following a path from a place meets a link at or below that place. -/
def MeetsLink (tree : FileTree) (here : Place) (path : String) : Prop :=
  ∃ parent target rest,
    tree.advance here (Path.parts path) = .ok (.link parent target rest) ∧ here <+: parent

/-- The parts of a path lead to a place just in case it is reached from the top. -/
theorem follow_eq_ok_iff {parts : List String} :
    tree.follow parts = .ok place ↔ tree.reach linkLimit [] parts = .ok (.taken place) := by
  rw [follow]
  split <;> simp_all

theorem follow_of_canonical {path : String} (h : tree.canonical path = .ok place) :
    tree.follow (Path.parts path) = .ok place := by
  rw [canonical] at h
  split at h
  · cases h
  · split at h
    · cases h
    · exact h

/-- A path that can be opened leads to the place where it is opened. -/
theorem canonical_of_locate {path : String} (h : tree.locate path = .ok place) :
    tree.canonical path = .ok place := by
  rw [locate] at h
  split at h
  · cases h
  · split at h
    · cases h
    · exact h

/-- Only in a directory does a path go on. -/
theorem exists_directory_of_advance {part : String} {rest : List String} {stretch : Stretch}
    (h : tree.advance here (part :: rest) = .ok stretch) :
    ∃ entries, tree.find? here = some (.directory entries) := by
  rw [advance] at h
  split at h
  · rename_i entries hFind
    exact ⟨entries, hFind⟩
  · cases h
  · cases h

/-- A path that leads somewhere starts at a directory. -/
theorem advance_self_of_reach {parts : List String} (hParts : parts ≠ [])
    (h : tree.reach links here parts = .ok (.taken place)) :
    tree.advance here [""] = .ok (.arrived here) := by
  obtain ⟨part, rest, rfl⟩ := List.exists_cons_of_ne_nil hParts
  obtain ⟨entries, hFind⟩ : ∃ entries, tree.find? here = some (.directory entries) := by
    rcases reach_cases h with hArrived | ⟨_, _, _, _, _, hLink⟩
    · exact exists_directory_of_advance hArrived
    · exact exists_directory_of_advance hLink
  simp [advance, hFind]

/-- A path that goes on below another leads, without links on the way, to a place below. -/
theorem follow_join {path next : String} (hNext : Path.isAbsolute next = false)
    (hUp : ".." ∉ Path.parts next)
    (h : tree.follow (Path.parts (Path.join path next)) = .ok place) :
    ∃ root, tree.follow (Path.parts path) = .ok root ∧
      (root <+: place ∨ tree.MeetsLink root next) := by
  obtain ⟨front, hJoin, hFront⟩ := Path.parts_join path hNext
  rw [hJoin, follow_eq_ok_iff] at h
  obtain ⟨root, left, hRoot, hOther⟩ := reach_append h
  rw [hOther] at h
  refine ⟨root, follow_eq_ok_iff.mpr ?_, ?_⟩
  · rcases hFront with rfl | hFront
    · exact hRoot
    · rw [hFront, hOther]
      exact reach_of_arrived left (advance_self_of_reach (Path.parts_ne_nil next) h)
  · rcases reach_cases h with hArrived | ⟨parent, target, rest, _, _, hLink⟩
    · exact .inl ((isPrefix_of_advance hUp hArrived).1 place rfl)
    · exact .inr ⟨parent, target, rest, hLink, (isPrefix_of_advance hUp hLink).2 _ _ _ rfl⟩

end FileTree

namespace Resource

namespace Directory

variable {directory : Directory} {tree : FileTree} {src : String} {place : Place} {bytes : Bytes}

/-- The place that a source leads to, if it is not refused. -/
def Leads (directory : Directory) (tree : FileTree) (src : String) (place : Place) : Prop :=
  Path.isAbsolute src = false ∧
    match directory.rootPlace with
    | some root => tree.canonical (Path.join directory.root src) = .ok place ∧ root <+: place
    | none => ".." ∉ Path.parts src ∧ tree.locate (Path.join directory.root src) = .ok place

/-- A source leads to a place just in case it is resolved to something that is there. -/
theorem leads_iff_resolve : directory.Leads tree src place ↔
    ∃ target, directory.resolve tree src = some target ∧ target.locate tree = .ok place := by
  rw [Leads, resolve]
  cases hAbsolute : Path.isAbsolute src with
  | true => simp
  | false =>
      cases hRoot : directory.rootPlace with
      | none => by_cases hUp : ".." ∈ Path.parts src <;> simp [hUp, Target.locate]
      | some root =>
          cases hCanonical : tree.canonical (Path.join directory.root src) with
          | ok found =>
              by_cases hBelow : root <+: found
              · simp only [hCanonical, hBelow, List.isPrefixOf_iff_prefix]
                simp [Target.locate]
                rintro rfl
                exact hBelow
              · simp only [hCanonical, hBelow, List.isPrefixOf_iff_prefix]
                simp
                rintro rfl
                exact hBelow
          | error error =>
              -- What leads nowhere cannot be opened either.
              have hLocate : tree.locate (Path.join directory.root src) ≠ .ok place := by
                intro hLocate
                rw [FileTree.canonical_of_locate hLocate] at hCanonical
                cases hCanonical
              simp only [hCanonical]
              by_cases hUp : ".." ∈ Path.parts src <;> simp [hUp, Target.locate, hLocate]

theorem readAt_eq_ok_iff :
    tree.readAt place = .ok bytes ↔ tree.find? place = some (.file bytes) := by
  rw [FileTree.readAt]
  split <;> simp_all

theorem isFileAt_iff : tree.isFileAt place = true ↔
    ∃ bytes, tree.find? place = some (.file bytes) := by
  rw [FileTree.isFileAt]
  split <;> simp_all

/-- A source is loaded just in case it leads to a file, and its bytes are those of the file. -/
theorem load_eq_ok_iff : directory.load tree src = .ok bytes ↔
    ∃ place, directory.Leads tree src place ∧ tree.find? place = some (.file bytes) := by
  simp only [leads_iff_resolve, ← readAt_eq_ok_iff]
  rw [load]
  cases hResolve : directory.resolve tree src with
  | none => simp
  | some target =>
      have hRead : (target.locate tree >>= tree.readAt) = .ok bytes ↔
          ∃ place, target.locate tree = .ok place ∧ tree.readAt place = .ok bytes := by
        cases target.locate tree <;> simp [bind, Except.bind]
      simp only [Option.some.injEq, exists_eq_left', ← hRead]
      cases target.locate tree >>= tree.readAt with
      | ok found => simp
      | error error => cases error <;> simp

/-- A source is there just in case it leads to a file. -/
theorem has_iff : directory.has tree src = true ↔
    ∃ place bytes, directory.Leads tree src place ∧ tree.find? place = some (.file bytes) := by
  simp only [leads_iff_resolve]
  rw [has]
  cases hResolve : directory.resolve tree src with
  | none => simp
  | some target =>
      cases hLocate : target.locate tree with
      | error error => simp [hLocate]
      | ok place => simp [hLocate, isFileAt_iff]

/-- A place below the root. Of a root that was not found when the directory was opened, only the
place where it stands now is known, and from there a link may lead anywhere. -/
def Keeps (directory : Directory) (tree : FileTree) (src : String) (place : Place) : Prop :=
  match directory.rootPlace with
  | some root => root <+: place
  | none => ∃ root, tree.follow (Path.parts directory.root) = .ok root ∧
      (root <+: place ∨ tree.MeetsLink root src)

/-- A source leads where its path below the root leads. -/
theorem Leads.canonical (h : directory.Leads tree src place) :
    tree.canonical (Path.join directory.root src) = .ok place := by
  obtain ⟨_, h⟩ := h
  cases hRoot : directory.rootPlace with
  | some root =>
      rw [hRoot] at h
      exact h.1
  | none =>
      rw [hRoot] at h
      exact FileTree.canonical_of_locate h.2

/-- A source leads to a place below the root, but for links below a root that was not found. -/
theorem Leads.keeps (h : directory.Leads tree src place) : directory.Keeps tree src place := by
  have hFollow := FileTree.follow_of_canonical h.canonical
  obtain ⟨hRelative, h⟩ := h
  rw [Keeps]
  cases hRoot : directory.rootPlace with
  | some root =>
      rw [hRoot] at h
      exact h.2
  | none =>
      rw [hRoot] at h
      exact FileTree.follow_join hRelative h.1 hFollow

/-- What a directory gives out is the contents of a file below its root, except that a root which
was missing when the directory was opened does not hold back links: then a source that goes down is
given out wherever it leads. -/
theorem gives_out_below_root (before now : FileTree) (root src : String) :
    (∀ bytes, (ofPath before root).load now src = .ok bytes →
      ∃ place, now.canonical (Path.join root src) = .ok place ∧
        now.find? place = some (.file bytes) ∧ (ofPath before root).Keeps now src place) ∧
    ((ofPath before root).has now src = true →
      ∃ place bytes, now.canonical (Path.join root src) = .ok place ∧
        now.find? place = some (.file bytes) ∧ (ofPath before root).Keeps now src place) ∧
    ∀ place bytes, (ofPath before root).rootPlace = none → Path.isAbsolute src = false →
      ".." ∉ Path.parts src → now.locate (Path.join root src) = .ok place →
      now.find? place = some (.file bytes) →
      (ofPath before root).load now src = .ok bytes ∧ (ofPath before root).has now src = true := by
  refine ⟨fun bytes hLoad => ?_, fun hHas => ?_,
    fun place bytes hRoot hRelative hUp hLocate hFile => ?_⟩
  · obtain ⟨place, hLeads, hFile⟩ := load_eq_ok_iff.mp hLoad
    exact ⟨place, hLeads.canonical, hFile, hLeads.keeps⟩
  · obtain ⟨place, bytes, hLeads, hFile⟩ := has_iff.mp hHas
    exact ⟨place, bytes, hLeads.canonical, hFile, hLeads.keeps⟩
  · have hLeads : (ofPath before root).Leads now src place := by
      refine ⟨hRelative, ?_⟩
      rw [hRoot]
      exact ⟨hUp, hLocate⟩
    exact ⟨load_eq_ok_iff.mpr ⟨place, hLeads, hFile⟩, has_iff.mpr ⟨place, bytes, hLeads, hFile⟩⟩

/-- Icons beside a file that is not one of them, with a link to it among the icons. -/
def sampleTree (others : List (String × FileTree)) : FileTree :=
  .directory ([("icons", .directory [("pin.png", .link "../secret.png"),
    ("red.png", .file [82])])] ++ others ++ [("secret.png", .file [94])])

theorem gives_out_below_root_sampleTree :
    (ofPath (sampleTree []) "/icons").load (sampleTree []) "../icons/./red.png" = .ok [82] ∧
      ∃ place, (sampleTree []).canonical "/icons/../icons/./red.png" = .ok place ∧
        (sampleTree []).find? place = some (.file [82]) ∧ ["icons"] <+: place := by
  refine ⟨rfl, ?_⟩
  exact (gives_out_below_root (sampleTree []) (sampleTree []) "/icons" "../icons/./red.png").1
    [82] rfl

/-- A root that came late lets a link lead out of it: no file below the root has these contents. -/
theorem late_root_leaks :
    let before := sampleTree []
    let now := sampleTree [("late", .directory [])]
    let root := "/late/../icons"
    (ofPath before root).load now "pin.png" = .ok [94] ∧
      (ofPath before root).has now "pin.png" = true ∧
      now.canonical root = .ok ["icons"] ∧
      now.canonical (Path.join root "pin.png") = .ok ["secret.png"] ∧
      ∀ place, now.find? place = some (.file [94]) → ¬ ["icons"] <+: place := by
  refine ⟨rfl, by decide +kernel, rfl, rfl, ?_⟩
  rintro _ hFile ⟨rest, rfl⟩
  cases rest with
  | nil => cases hFile
  | cons name rest =>
      simp only [sampleTree, List.cons_append, List.nil_append, FileTree.find?, Table.get?, if_true,
        Option.bind_some] at hFile
      split at hFile
      · cases rest <;> cases hFile
      · split at hFile
        · cases rest <;> cases hFile
        · cases hFile

end Directory

end Resource

end PointStyle
