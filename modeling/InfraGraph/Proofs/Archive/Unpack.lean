import InfraGraph.Proofs.Archive.Shape
import InfraGraph.Proofs.FileTree.System
import InfraGraph.Proofs.Path.Relative

/-!
# What unpacking makes

Entries are unpacked one after the other, so everything depends on their order: what leads to an
entry has to come before it, and nothing may come twice.  Then an empty folder ends up as the tree
that has every entry at its names and nothing else, and only the limits of the file system can keep
it from doing so.
-/

namespace InfraGraph

namespace ArchiveEntry

/-- The names that lead to an entry. -/
def parts (entry : ArchiveEntry) : List String :=
  (Path.split entry.name).filter fun part => part ≠ ""

/-- What is put at the names of an entry. -/
def leaf (entry : ArchiveEntry) : FileTree :=
  match entry.contents with
  | none => .folder []
  | some contents => .file contents

/-- The name of an entry is made of names, with a slash at the end of a directory. -/
structure IsNamed (entry : ArchiveEntry) : Prop where
  plain : ∀ part ∈ entry.parts, Path.IsPlain part
  name : entry.name = Path.unsplit entry.parts ++ if entry.contents = none then "/" else ""

theorem isLeaf_leaf (entry : ArchiveEntry) : entry.leaf.IsLeaf := by
  unfold leaf
  cases entry.contents with
  | none => exact FileTree.isLeaf_empty
  | some contents => exact FileTree.isLeaf_file contents

theorem wellFormed_leaf (entry : ArchiveEntry) : entry.leaf.WellFormed := by
  unfold leaf
  cases entry.contents with
  | none => exact FileTree.wellFormed_folder_iff.2 ⟨List.Pairwise.nil, by simp⟩
  | some contents => trivial

section Named

variable {names : List String}

theorem parts_file (hplain : ∀ name ∈ names, Path.IsPlain name) (contents : ByteArray) :
    (⟨Path.unsplit names, some contents⟩ : ArchiveEntry).parts = names :=
  Path.filter_split_unsplit hplain

theorem parts_directory (hplain : ∀ name ∈ names, Path.IsPlain name) :
    (⟨Path.unsplit names ++ "/", none⟩ : ArchiveEntry).parts = names := by
  have hslash := Path.split_append_slash (Path.unsplit names) ""
  have hend : Path.split "" = [""] := Path.split_of_not_mem (by simp)
  rw [String.append_empty, hend] at hslash
  rw [parts, hslash, List.filter_append, Path.filter_split_unsplit hplain]
  simp

theorem isNamed_file (hplain : ∀ name ∈ names, Path.IsPlain name) (contents : ByteArray) :
    (⟨Path.unsplit names, some contents⟩ : ArchiveEntry).IsNamed := by
  refine ⟨?_, ?_⟩
  · rwa [parts_file hplain]
  · rw [parts_file hplain]
    simp

theorem isNamed_directory (hplain : ∀ name ∈ names, Path.IsPlain name) :
    (⟨Path.unsplit names ++ "/", none⟩ : ArchiveEntry).IsNamed := by
  refine ⟨?_, ?_⟩
  · rwa [parts_directory hplain]
  · rw [parts_directory hplain, if_pos rfl]

end Named

end ArchiveEntry

namespace Archive

open FileSystem (Fits)

/-! ### One entry -/

section Entry

variable {fs result : FileSystem} {here front : List String} {last : String}
  {entry : ArchiveEntry}

/-- An entry is put where nothing is, as far as its path fits. -/
theorem unpackEntry_eq_ok_iff (hhere : ∀ name ∈ here, Path.IsPlain name) (hnamed : entry.IsNamed)
    (hparts : entry.parts = front ++ [last])
    (hfolder : fs.root.kindAt (here ++ front) = some .folder)
    (hnone : fs.root.kindAt (here ++ entry.parts) = none) :
    unpackEntry (Path.absolute here) fs entry = .ok result ↔
      Fits (here ++ entry.parts) ∧ result = fs.put (here ++ entry.parts) entry.leaf := by
  obtain ⟨hplain, hname⟩ := hnamed
  have hne : entry.parts ≠ [] := by simp [hparts]
  have hall : ∀ name ∈ (here ++ front) ++ [last], Path.IsPlain name := by
    rw [List.append_assoc, ← hparts]
    intro name hname
    exact (List.mem_append.1 hname).elim (hhere name) (hplain name)
  have hassoc : here ++ entry.parts = (here ++ front) ++ [last] := by
    rw [hparts, List.append_assoc]
  cases hcontents : entry.contents with
  | none =>
      rw [if_pos hcontents] at hname
      have hleaf : entry.leaf = .folder [] := by simp only [ArchiveEntry.leaf, hcontents]
      simp only [unpackEntry, hcontents, hname]
      rw [Path.join_absolute_unsplit_slash hhere hne hplain, hleaf]
      rw [hassoc] at hnone ⊢
      exact FileSystem.createFolders_new hall hfolder hnone
  | some contents =>
      rw [if_neg (by simp [hcontents]), String.append_empty] at hname
      have hleaf : entry.leaf = .file contents := by simp only [ArchiveEntry.leaf, hcontents]
      simp only [unpackEntry, hcontents, hname]
      rw [Path.join_absolute_unsplit hhere hne hplain, hleaf]
      rw [hassoc] at hnone ⊢
      rw [Path.parent?_absolute hall, Option.getD_some, bind_eq_ok_iff]
      have hfront : ∀ name ∈ here ++ front, Path.IsPlain name := fun name hname =>
        hall name (List.mem_append_left _ hname)
      constructor
      · rintro ⟨between, hmade, hwrite⟩
        obtain rfl := FileSystem.eq_of_createFolders_folder hfront hfolder hmade
        exact (FileSystem.write_new hall hfolder hnone).1 hwrite
      · rintro ⟨hfits, hresult⟩
        exact ⟨fs, FileSystem.createFolders_folder hfront hfolder hfits.front,
          (FileSystem.write_new hall hfolder hnone).2 ⟨hfits, hresult⟩⟩

end Entry

/-! ### All entries -/

/-- What leads to an entry came before it, and nothing that came before is in its place. -/
structure CanFollow (before : List ArchiveEntry) (entry : ArchiveEntry) : Prop where
  named : entry.IsNamed
  above : ∃ front last, entry.parts = front ++ [last] ∧
    (front = [] ∨ ∃ directory ∈ before, directory.contents = none ∧ directory.parts = front)
  free : ∀ other ∈ before, other.parts ≠ entry.parts

/-- Entries that can be unpacked in their order. -/
def IsUnpackable (entries : List ArchiveEntry) : Prop :=
  ∀ before entry after, entries = before ++ entry :: after → CanFollow before entry

/-- A folder has every entry at its names and nothing else. -/
def IsMadeOf (entries : List ArchiveEntry) (t : FileTree) : Prop :=
  ∀ path kind, t.kindAt path = some kind ↔
    (path = [] ∧ kind = .folder) ∨ ∃ entry ∈ entries, entry.parts = path ∧ entry.leaf.kind = kind

section Entries

variable {fs : FileSystem} {here : List String} {entries before : List ArchiveEntry}

theorem IsUnpackable.of_append {after : List ArchiveEntry} (h : IsUnpackable (before ++ after)) :
    IsUnpackable before := by
  intro front entry back hsplit
  exact h front entry (back ++ after) (by rw [hsplit]; simp)

theorem isMadeOf_nil : IsMadeOf [] (.folder []) := by
  intro path kind
  cases path with
  | nil =>
      have hkind : (FileTree.folder []).kindAt [] = some .folder := rfl
      rw [hkind, Option.some.injEq]
      simp [@eq_comm _ kind]
  | cons name rest => simp [FileTree.kindAt, FileTree.find?_folder_cons, Entries.find?]

/-- One more entry in its place. -/
theorem IsMadeOf.insert {t : FileTree} {entry : ArchiveEntry} (h : IsMadeOf before t)
    (hnone : t.kindAt entry.parts = none) {front : List String} {last : String}
    (hparts : entry.parts = front ++ [last]) (hfolder : t.kindAt front = some .folder) :
    IsMadeOf (before ++ [entry]) (FileTree.insert entry.leaf entry.parts t) := by
  intro path kind
  rw [hparts] at hnone
  rw [hparts, FileTree.kindAt_insert entry.isLeaf_leaf hfolder hnone]
  simp only [List.mem_append, List.mem_singleton, or_and_right, exists_or, exists_eq_left]
  by_cases hpath : path = front ++ [last]
  · rw [if_pos hpath]
    rw [hpath]
    have hbefore := (not_congr (h (front ++ [last]) kind)).1 (by simp [hnone])
    rw [not_or] at hbefore
    simp [hbefore.2, hparts]
  · rw [if_neg hpath, h path kind]
    simp [hparts, Ne.symm hpath]

theorem CanFollow.kindAt {t : FileTree} {entry : ArchiveEntry} (h : CanFollow before entry)
    (ht : IsMadeOf before t) :
    t.kindAt entry.parts = none ∧
      ∃ front last, entry.parts = front ++ [last] ∧ t.kindAt front = some .folder := by
  obtain ⟨_, ⟨front, last, hparts, habove⟩, hfree⟩ := h
  constructor
  · cases hkind : t.kindAt entry.parts with
    | none => rfl
    | some kind =>
        rcases (ht _ _).1 hkind with ⟨hnil, _⟩ | ⟨other, hother, hsame, _⟩
        · simp [hparts] at hnil
        · exact absurd hsame (hfree other hother)
  · refine ⟨front, last, hparts, (ht front .folder).2 ?_⟩
    rcases habove with hnil | ⟨directory, hdirectory, hnone, hfront⟩
    · exact .inl ⟨hnil, rfl⟩
    · exact .inr ⟨directory, hdirectory, hfront, by simp [ArchiveEntry.leaf, hnone, FileTree.kind]⟩

/-- One entry more is unpacked if its path fits, and then it is in its place. -/
theorem unpackEntry_spec {between : FileSystem} {t : FileTree} {entry : ArchiveEntry}
    (hhere : ∀ name ∈ here, Path.IsPlain name) (ht : between.root.find? here = some t)
    (hwell : t.WellFormed) (hmade : IsMadeOf before t) (hfollow : CanFollow before entry) :
    (∀ result, unpackEntry (Path.absolute here) between entry = .ok result ↔
        Fits (here ++ entry.parts) ∧ result = between.put (here ++ entry.parts) entry.leaf) ∧
      ∃ t', (between.put (here ++ entry.parts) entry.leaf).root.find? here = some t' ∧
        t'.WellFormed ∧ IsMadeOf (before ++ [entry]) t' := by
  obtain ⟨hnone, front, last, hparts, hfolder⟩ := hfollow.kindAt hmade
  constructor
  · intro result
    refine unpackEntry_eq_ok_iff hhere hfollow.named hparts ?_ ?_
    · rw [FileTree.kindAt_append ht, hfolder]
    · rw [FileTree.kindAt_append ht, hnone]
  · exact ⟨_, FileTree.find?_insert_append ht _ _, entry.wellFormed_leaf.insert hwell _,
      hmade.insert hnone hparts hfolder⟩

/-- Unpacking succeeds exactly when all paths fit, and makes what the entries say. -/
theorem foldlM_unpackEntry (hhere : ∀ name ∈ here, Path.IsPlain name)
    (hempty : fs.root.find? here = some (.folder [])) (h : IsUnpackable entries) :
    ((∃ result, entries.foldlM (unpackEntry (Path.absolute here)) fs = .ok result) ↔
        ∀ entry ∈ entries, Fits (here ++ entry.parts)) ∧
      ∀ result, entries.foldlM (unpackEntry (Path.absolute here)) fs = .ok result →
        ∃ t, result.root.find? here = some t ∧ t.WellFormed ∧ IsMadeOf entries t := by
  -- What can follow an entry depends on those before it, so the last one is taken away.
  induction entries using List.reverseRecOn with
  | nil =>
      refine ⟨iff_of_true ⟨fs, rfl⟩ (by simp), ?_⟩
      intro result hresult
      obtain rfl := Except.ok.inj hresult
      exact ⟨_, hempty, FileTree.wellFormed_folder_iff.2 ⟨List.Pairwise.nil, by simp⟩, isMadeOf_nil⟩
  | append_singleton before entry ih =>
      obtain ⟨hfits, hmade⟩ := ih h.of_append
      have hfollow := h before entry [] rfl
      simp only [foldlM_concat_eq_ok_iff]
      constructor
      · rw [List.forall_mem_append, ← hfits, List.forall_mem_singleton]
        constructor
        · intro ⟨result, between, hbetween, hresult⟩
          obtain ⟨t, ht, hwell, hholds⟩ := hmade between hbetween
          have hstep := (unpackEntry_spec hhere ht hwell hholds hfollow).1
          exact ⟨⟨between, hbetween⟩, ((hstep result).1 hresult).1⟩
        · intro ⟨⟨between, hbetween⟩, hentry⟩
          obtain ⟨t, ht, hwell, hholds⟩ := hmade between hbetween
          have hstep := (unpackEntry_spec hhere ht hwell hholds hfollow).1
          exact ⟨_, between, hbetween, (hstep _).2 ⟨hentry, rfl⟩⟩
      · intro result ⟨between, hbetween, hresult⟩
        obtain ⟨t, ht, hwell, hholds⟩ := hmade between hbetween
        obtain ⟨hstep, hnext⟩ := unpackEntry_spec hhere ht hwell hholds hfollow
        obtain ⟨_, rfl⟩ := (hstep result).1 hresult
        exact hnext

/-- The folder that an archive is unpacked into becomes what the entries say. -/
theorem unpack_spec {archive : Archive} (hhere : ∀ name ∈ here, Path.IsPlain name)
    (hempty : fs.root.find? here = some (.folder [])) (h : IsUnpackable archive.entries)
    (hne : archive.entries ≠ []) :
    ((∃ result, archive.unpack (Path.absolute here) fs = .ok result) ↔
        ∀ entry ∈ archive.entries, Fits (here ++ entry.parts)) ∧
      ∀ result, archive.unpack (Path.absolute here) fs = .ok result →
        ∃ t, result.root.find? here = some t ∧ t.WellFormed ∧ IsMadeOf archive.entries t := by
  have hfolder : fs.root.kindAt here = some .folder := by
    rw [FileTree.kindAt, hempty]
    rfl
  obtain ⟨hfits, hmade⟩ := foldlM_unpackEntry hhere hempty h
  have hunpack : ∀ result, archive.unpack (Path.absolute here) fs = .ok result →
      archive.entries.foldlM (unpackEntry (Path.absolute here)) fs = .ok result := by
    intro result hresult
    rw [unpack, bind_eq_ok_iff] at hresult
    obtain ⟨between, hbetween, hresult⟩ := hresult
    rwa [FileSystem.eq_of_createFolders_folder hhere hfolder hbetween] at hresult
  refine ⟨?_, fun result hresult => hmade result (hunpack result hresult)⟩
  rw [← hfits]
  constructor
  · rintro ⟨result, hresult⟩
    exact ⟨result, hunpack result hresult⟩
  · rintro ⟨result, hresult⟩
    obtain ⟨entry, rest, hentries⟩ := List.exists_cons_of_ne_nil hne
    have hfront : Fits here := by
      have hentry : Fits (here ++ entry.parts) :=
        hfits.1 ⟨result, hresult⟩ entry (by simp [hentries])
      exact hentry.front
    refine ⟨result, ?_⟩
    rw [unpack, FileSystem.createFolders_folder hhere hfolder hfront]
    exact hresult

end Entries

/-! ### Generated archives -/

section Generated

variable {σ : Type} [AttachmentStore σ] {store : σ} {moduleBase : String} {g : Graph}
  {paths : PathMap}

theorem bootstrapFile_path : bootstrapFile.path = Path.unsplit [NodeType.defaultFileName] := by
  rw [Path.unsplit_singleton]
  rfl

/-- The fixed file is the entry at its name. -/
theorem bootstrapFile_mem_entries (h : IsGenerable store moduleBase g paths) :
    ⟨Path.unsplit [NodeType.defaultFileName], some bootstrapFile.contents⟩ ∈
      (ofPlan store moduleBase g paths).entries := by
  rw [mem_entries_ofPlan_some_iff h, ← bootstrapFile_path]
  exact ⟨bootstrapFile, List.mem_cons_self, rfl, rfl⟩

theorem exists_parts_of_mem_entries (h : IsGenerable store moduleBase g paths)
    {entry : ArchiveEntry} (hentry : entry ∈ (ofPlan store moduleBase g paths).entries) :
    entry.IsNamed ∧ ∃ front last, entry.parts = front ++ [last] ∧
      (front = [] ∨ Path.unsplit front ∈ paths.values) := by
  rcases cases_of_mem_entries h hentry with
    ⟨path, hpath, rfl⟩ | rfl | ⟨placed, hplaced, name, hname, contents, rfl⟩
  · obtain ⟨parts, hne, hplain, rfl⟩ := exists_parts_of_mem_values h.resolved hpath
    refine ⟨ArchiveEntry.isNamed_directory hplain, ?_⟩
    rw [ArchiveEntry.parts_directory hplain]
    obtain ⟨front, last, rfl⟩ := (List.eq_nil_or_concat' parts).resolve_left hne
    refine ⟨front, last, rfl, ?_⟩
    by_cases hfront : front = []
    · exact .inl hfront
    · exact .inr (mem_values_of_append h.resolved hfront hplain hpath)
  · have hplain := NodeType.isPlain_defaultFileName
    refine ⟨ArchiveEntry.isNamed_file hplain _, [], NodeType.defaultFileName, ?_, .inl rfl⟩
    exact ArchiveEntry.parts_file hplain _
  · have hvalue := mem_values_of_mem_placedNodes hplaced
    obtain ⟨front, hne, hfront, hparts⟩ := exists_parts_of_mem_values h.resolved hvalue
    have hplain : ∀ part ∈ front ++ [name], Path.IsPlain part := by
      rw [Path.forall_isPlain_concat]
      exact ⟨hfront, Node.isPlain_fileNames (h.valid placed hplaced) name hname⟩
    rw [hparts, ← Path.unsplit_concat hne]
    refine ⟨ArchiveEntry.isNamed_file hplain contents, front, name, ?_, .inr (hparts ▸ hvalue)⟩
    rw [ArchiveEntry.parts_file hplain]

/-- Two entries at the same names are one. -/
theorem IsFileTree.name_eq {archive : Archive} (h : archive.IsFileTree) {a b : ArchiveEntry}
    (ha : a ∈ archive.entries) (hb : b ∈ archive.entries) (hnamed : a.IsNamed)
    (hnamed' : b.IsNamed) (hparts : a.parts = b.parts) : a.name = b.name := by
  have hnot : ∀ x y : ArchiveEntry, x ∈ archive.entries → y ∈ archive.entries → x.IsNamed →
      y.IsNamed → x.parts = y.parts → x.contents = none → y.contents = none := by
    intro x y hx hy hxnamed hynamed hsame hnone
    cases hcontents : y.contents with
    | none => rfl
    | some contents =>
        have hxname := hxnamed.name
        have hyname := hynamed.name
        rw [if_pos hnone] at hxname
        rw [if_neg (by simp [hcontents]), String.append_empty] at hyname
        have hfile : (⟨Path.unsplit y.parts, some contents⟩ : ArchiveEntry) ∈ archive.entries := by
          rw [← hyname, ← hcontents]
          exact hy
        refine absurd ?_ (h.not_directory _ _ hfile)
        rw [← hsame, ← hxname, ← hnone]
        exact hx
  have hkind : a.contents = none ↔ b.contents = none :=
    ⟨hnot a b ha hb hnamed hnamed' hparts, hnot b a hb ha hnamed' hnamed hparts.symm⟩
  rw [hnamed.name, hnamed'.name, hparts]
  simp only [hkind]

/-- A generated archive can be unpacked in its order, unless a node has the directory
`terragrunt.hcl`. -/
theorem isUnpackable_ofPlan (h : IsGenerable store moduleBase g paths)
    (hfree : NodeType.defaultFileName ∉ paths.values) :
    IsUnpackable (ofPlan store moduleBase g paths).entries := by
  intro before entry after hsplit
  have hordered := isOrdered_ofPlan h
  have hentry : entry ∈ (ofPlan store moduleBase g paths).entries := by simp [hsplit]
  obtain ⟨hnamed, front, last, hparts, hfront⟩ := exists_parts_of_mem_entries h hentry
  refine ⟨hnamed, ⟨front, last, hparts, ?_⟩, ?_⟩
  · by_cases hnil : front = []
    · exact .inl hnil
    · right
      have hplain : ∀ part ∈ front, Path.IsPlain part := by
        intro part hpart
        exact hnamed.plain part (by simp [hparts, hpart])
      refine ⟨⟨Path.unsplit front ++ "/", none⟩, ?_, rfl, ArchiveEntry.parts_directory hplain⟩
      refine hordered.directory_first before entry after hsplit _ ?_ rfl ?_ ?_
      · rw [mem_entries_ofPlan_none_iff h.resolved]
        exact ⟨_, hfront.resolve_left hnil, rfl⟩
      · intro hsame
        rw [← hsame, ArchiveEntry.parts_directory hplain] at hparts
        simp at hparts
      · rw [hnamed.name, hparts, Path.unsplit_append hnil (by simp), String.append_assoc]
        exact ⟨_, (String.toList_append).symm⟩
  · intro other hother hsame
    have hmem : other ∈ (ofPlan store moduleBase g paths).entries := by simp [hsplit, hother]
    have hname := ((isFileTree_ofPlan_iff h).2 hfree).name_eq hmem hentry
      (exists_parts_of_mem_entries h hmem).1 hnamed hsame
    have hnodup := hordered.names_nodup
    rw [hsplit, List.map_append, List.map_cons, List.nodup_append] at hnodup
    exact hnodup.2.2 _ (List.mem_map.2 ⟨other, hother, rfl⟩) _ List.mem_cons_self hname

end Generated

end Archive

end InfraGraph
