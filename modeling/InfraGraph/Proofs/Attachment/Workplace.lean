import InfraGraph.Proofs.Attachment.Changes
import InfraGraph.Proofs.FileTree.Unlinked

/-!
# Directories that other programs have changed

A store has to work in whatever directory it is given.  Its folders may be gone or be files, and
among its records and contents there may be anything but links.  What it reads there is said by the
files in their places, and what it writes gets there or nothing is changed.
-/

namespace InfraGraph.DirectoryStore

open InfraGraph.Path FileSystem

/-- A store has a folder to work in, without links.  Whatever else is there, it can be named in a
path, and nothing is in the place of the file that is staged. -/
structure IsWorkplace (store : DirectoryStore) (home : List String) : Prop where
  isHome : IsHome home
  path : store.path = absolute home
  wellFormed : store.files.root.WellFormed
  folder : store.files.root.kindAt home = some .folder
  unlinked : ∀ path target, store.files.root.kindAt (home ++ path) ≠ some (.link target)
  plain : ∀ name kind, store.files.root.kindAt (home ++ [recordFolder, name]) = some kind →
    IsPlain name
  fresh : store.files.root.kindAt (home ++ [stagingFolder, "staged"]) = none

/-- A file of the folder of records holds a record. -/
def HoldsRecord (store : DirectoryStore) (home : List String) (name : String)
    (record : Attachment) : Prop :=
  Fits (home ++ [recordFolder, name]) ∧ ∃ contents,
    store.files.root.kindAt (home ++ [recordFolder, name]) = some (.file contents) ∧
      recordOfBytes contents = .ok record

section Workplace

variable {store : DirectoryStore} {home : List String} {path : List String}

theorem Mirrors.isWorkplace {memory : MemoryStore} (h : store.Mirrors home memory)
    (hhome : IsHome home) : store.IsWorkplace home := by
  refine ⟨hhome, h.path, h.wellFormed, h.kindAt_home, fun path => h.link, fun name kind hkind => ?_,
    h.kindAt_eq_none not_isFilePath_staged not_isFolderPath_staged⟩
  cases h.holds _ kind hkind with
  | folder hpath => exact absurd hpath (isFilePath_record name).not_isFolderPath
  | file hkeeps =>
      obtain ⟨id, record, hfind, rfl, _⟩ := hkeeps.exists_record
      exact isPlain_fileName (h.writable.id id record hfind).2.isLookup.no_slash

theorem IsWorkplace.kindAt_root (h : store.IsWorkplace home) :
    store.files.root.kindAt [] = some .folder := by
  have hhome := h.folder
  rw [← List.nil_append home] at hhome
  exact FileTree.kindAt_front hhome

theorem IsWorkplace.isUnlinked (h : store.IsWorkplace home) (path : List String) :
    store.files.IsUnlinked (home ++ path) := by
  intro front hfront target htarget
  rcases List.prefix_or_prefix_of_prefix hfront (List.prefix_append home path) with
    ⟨back, rfl⟩ | ⟨rest, rfl⟩
  · rw [FileTree.kindAt_front h.folder] at htarget
    cases htarget
  · exact h.unlinked rest target htarget

/-- What is new in a workplace may be anything but a link, under a plain name. -/
theorem IsWorkplace.next (h : store.IsWorkplace home) {files : FileSystem}
    (hwell : files.root.WellFormed) (hfolder : files.root.kindAt home = some .folder)
    (hkind : ∀ path kind, files.root.kindAt (home ++ path) = some kind →
      store.files.root.kindAt (home ++ path) = some kind ∨
        (∀ target, kind ≠ .link target) ∧ (∀ name ∈ path, IsPlain name) ∧
          path ≠ [stagingFolder, "staged"]) :
    IsWorkplace { store with files := files } home := by
  refine ⟨h.isHome, h.path, hwell, hfolder, fun path target hlink => ?_, fun name kind hfound => ?_,
    ?_⟩
  · rcases hkind path _ hlink with hold | ⟨hnew, _⟩
    · exact h.unlinked path target hold
    · exact hnew target rfl
  · rcases hkind _ kind hfound with hold | ⟨_, hplain, _⟩
    · exact h.plain name kind hold
    · exact hplain name (by simp)
  · cases hstaged : files.root.kindAt (home ++ [stagingFolder, "staged"]) with
    | none => rfl
    | some kind =>
        rcases hkind _ kind hstaged with hold | ⟨_, _, hne⟩
        · rw [h.fresh] at hold
          cases hold
        · exact absurd rfl hne

theorem IsWorkplace.remove (h : store.IsWorkplace home) (hne : path ≠ []) :
    IsWorkplace { store with files := store.files.remove (home ++ path) } home := by
  refine h.next (h.wellFormed.erase _) ?_ fun rest kind hkind => ?_
  · have hkept := @kindAt_remove home path store.files hne []
    rw [List.append_nil] at hkept
    rw [hkept, if_neg fun hstart => hne (List.prefix_nil.1 hstart)]
    exact h.folder
  · rw [kindAt_remove hne] at hkind
    split at hkind
    · cases hkind
    · exact .inl hkind

theorem kindAt_put {files : FileSystem} {front : List String} {last : String}
    (hfront : files.root.kindAt (home ++ front) = some .folder)
    (hnone : files.root.kindAt (home ++ (front ++ [last])) = none) (contents : ByteArray)
    (path : List String) :
    (files.put (home ++ (front ++ [last])) (.file contents)).root.kindAt (home ++ path) =
      if path = front ++ [last] then some (.file contents)
      else files.root.kindAt (home ++ path) := by
  have hkind := FileTree.kindAt_insert (FileTree.isLeaf_file contents) hfront
    (by rwa [List.append_assoc]) (home ++ path)
  simp only [List.append_assoc, List.append_cancel_left_eq] at hkind
  exact hkind

/-- Another program may write a file where nothing is. -/
theorem IsWorkplace.addFile (h : store.IsWorkplace home) {front : List String} {last : String}
    (hfront : store.files.root.kindAt (home ++ front) = some .folder)
    (hnone : store.files.root.kindAt (home ++ (front ++ [last])) = none)
    (hplain : ∀ name ∈ front ++ [last], IsPlain name)
    (hstaged : front ++ [last] ≠ [stagingFolder, "staged"]) (contents : ByteArray) :
    IsWorkplace
      { store with files := store.files.put (home ++ (front ++ [last])) (.file contents) } home := by
  have hkind := kindAt_put hfront hnone contents
  refine h.next (FileTree.WellFormed.insert (show (FileTree.file contents).WellFormed from trivial)
    h.wellFormed _) ?_ fun path kind hfound => ?_
  · have hhome := hkind []
    rw [List.append_nil, if_neg (by simp)] at hhome
    exact hhome.trans h.folder
  · rw [hkind] at hfound
    split at hfound
    · rename_i hlast
      refine .inr ⟨fun target htarget => ?_, hlast ▸ hplain, hlast ▸ hstaged⟩
      rw [htarget] at hfound
      cases hfound
    · exact .inl hfound

end Workplace

/-! ### What is read -/

section Read

variable {store : DirectoryStore} {home : List String} {name : String} {record : Attachment}

theorem HoldsRecord.eq {other : Attachment} (h : store.HoldsRecord home name record)
    (hother : store.HoldsRecord home name other) : record = other := by
  obtain ⟨_, contents, hkind, hrecord⟩ := h
  obtain ⟨_, contents', hkind', hother⟩ := hother
  obtain rfl := FileTree.Kind.file.inj (Option.some.inj (hkind.symm.trans hkind'))
  exact Except.ok.inj (hrecord.symm.trans hother)

theorem HoldsRecord.isAddress_digest (h : store.HoldsRecord home name record) :
    IsAddress record.digest.toHex := by
  obtain ⟨_, contents, _, hrecord⟩ := h
  exact ⟨_, length_digest_of_recordOfBytes hrecord, rfl⟩

theorem IsWorkplace.plain_record (h : store.IsWorkplace home) (hname : IsPlain name) :
    ∀ part ∈ home ++ [recordFolder, name], IsPlain part :=
  List.forall_mem_append.2 ⟨h.isHome.plain, by
    simpa using ⟨isPlain_folder (by simp), hname⟩⟩

theorem IsWorkplace.read_record_iff (h : store.IsWorkplace home) (hname : IsPlain name) :
    (∃ contents, store.files.read (absolute (home ++ [recordFolder, name])) = .ok contents ∧
      recordOfBytes contents = .ok record) ↔ store.HoldsRecord home name record := by
  simp only [(h.isUnlinked _).read_eq_ok_iff (h.plain_record hname), HoldsRecord]
  constructor
  · rintro ⟨contents, ⟨hfits, hkind⟩, hrecord⟩
    exact ⟨hfits, contents, hkind, hrecord⟩
  · rintro ⟨hfits, contents, hkind, hrecord⟩
    exact ⟨contents, ⟨hfits, hkind⟩, hrecord⟩

theorem IsWorkplace.readRecord_eq_some_iff (h : store.IsWorkplace home) {id : String}
    (hid : '/' ∉ id.toList) :
    store.readRecord id = .ok (some record) ↔ store.HoldsRecord home (id ++ ".json") record := by
  rw [← h.read_record_iff (isPlain_fileName hid), ← recordPath_eq h.isHome h.path hid]
  cases hread : store.files.read (store.recordPath id) with
  | ok contents =>
      rw [readRecord_of_read hread, map_eq_ok_iff]
      simp
  | error e =>
      rw [readRecord, hread]
      cases e <;> simp

theorem IsWorkplace.recordOfEntry_eq_some_iff (h : store.IsWorkplace home) (hname : IsPlain name) :
    store.recordOfEntry name = .ok (some record) ↔
      extension? name = some "json" ∧ store.HoldsRecord home name record := by
  have hpath : join (join store.path recordFolder) name = absolute (home ++ [recordFolder, name]) := by
    rw [h.path, join_join_absolute h.isHome]
    simpa using ⟨isPlain_folder (by simp), hname⟩
  rw [recordOfEntry, hpath, ← h.read_record_iff hname]
  by_cases hextension : extension? name = some "json"
  · rw [if_pos hextension]
    cases hread : store.files.read (absolute (home ++ [recordFolder, name])) with
    | ok contents =>
        simp [hextension, map_eq_ok_iff]
    | error e => simp
  · rw [if_neg hextension]
    simp [hextension]

/-- A file of the folder of records is no obstacle to reading all records, if its name has another
ending or it holds a record. -/
theorem IsWorkplace.exists_recordOfEntry_iff (h : store.IsWorkplace home) (hname : IsPlain name) :
    (∃ found, store.recordOfEntry name = .ok found) ↔
      (extension? name = some "json" → ∃ record, store.HoldsRecord home name record) := by
  by_cases hextension : extension? name = some "json"
  · constructor
    · rintro ⟨found, hfound⟩ _
      cases found with
      | some record => exact ⟨record, ((h.recordOfEntry_eq_some_iff hname).1 hfound).2⟩
      | none =>
          rw [recordOfEntry, if_pos hextension] at hfound
          split at hfound
          · obtain ⟨record, _, hnone⟩ := map_eq_ok_iff.1 hfound
            cases hnone
          · cases hfound
    · intro hholds
      obtain ⟨record, hrecord⟩ := hholds hextension
      exact ⟨some record, (h.recordOfEntry_eq_some_iff hname).2 ⟨hextension, hrecord⟩⟩
  · refine ⟨fun _ hjson => absurd hjson hextension, fun _ => ⟨none, ?_⟩⟩
    rw [recordOfEntry, if_neg hextension]

/-- The records that are listed are those of some entries, each of which can be read. -/
theorem IsWorkplace.records_eq_ok_iff (h : store.IsWorkplace home) {records : List Attachment} :
    store.records = .ok records ↔ ∃ es found,
      store.files.root.find? (home ++ [recordFolder]) = some (.folder es) ∧
        List.Forall₂ (fun entry read => store.recordOfEntry entry.1 = .ok read) es found ∧
          records = (found.filterMap id).mergeSort fun a b => a.id ≤ b.id := by
  have hinside := isInside_folder (show recordFolder ∈ [stagingFolder, blobFolder, recordFolder] by
    simp)
  have hpath : join store.path recordFolder = absolute (home ++ [recordFolder]) := by
    rw [h.path, join_absolute_name h.isHome.plain (hinside.plain _ (by simp))]
  have hlist := fun es => @IsUnlinked.list_eq_ok_iff _ _ (h.isUnlinked [recordFolder])
    (h.isHome.plain_append hinside) es
  simp only [h.isHome.fits_append hinside, true_and] at hlist
  rw [DirectoryStore.records, hpath]
  cases hread : store.files.list (absolute (home ++ [recordFolder])) with
  | error e =>
      constructor
      · intro hrecords
        cases hrecords
      · rintro ⟨es, _, hes, _⟩
        rw [(hlist es).2 hes] at hread
        cases hread
  | ok es =>
      have hes := (hlist es).1 hread
      simp only [bind_eq_ok_iff, mapM_eq_ok_iff]
      constructor
      · rintro ⟨found, hfound, hrecords⟩
        exact ⟨es, found, hes, hfound, (Except.ok.inj hrecords).symm⟩
      · rintro ⟨es', found, hes', hfound, rfl⟩
        obtain rfl := FileTree.folder.inj (Option.some.inj (hes.symm.trans hes'))
        exact ⟨found, hfound, rfl⟩

theorem kindAt_entry_iff {t : FileTree} {es : List (String × FileTree)} {path : List String}
    (hes : t.find? path = some (.folder es)) (hascending : Entries.Ascending es)
    {kind : FileTree.Kind} :
    t.kindAt (path ++ [name]) = some kind ↔ ∃ node, (name, node) ∈ es ∧ node.kind = kind := by
  rw [FileTree.kindAt_append hes, FileTree.kindAt_folder_cons, Option.bind_eq_some_iff]
  simp [FileTree.kindAt, hascending.find?_eq_some_iff]

/-- The names in the folder of records are those of its entries. -/
theorem IsWorkplace.exists_kindAt_iff (h : store.IsWorkplace home)
    {es : List (String × FileTree)}
    (hes : store.files.root.find? (home ++ [recordFolder]) = some (.folder es)) :
    (∃ kind, store.files.root.kindAt (home ++ [recordFolder, name]) = some kind) ↔
      ∃ node, (name, node) ∈ es := by
  have hascending := (FileTree.wellFormed_folder_iff.1 (h.wellFormed.of_find? hes)).1
  have hsplit : home ++ [recordFolder, name] = home ++ [recordFolder] ++ [name] := by simp
  simp only [hsplit, kindAt_entry_iff hes hascending]
  constructor
  · rintro ⟨_, node, hnode, _⟩
    exact ⟨node, hnode⟩
  · rintro ⟨node, hnode⟩
    exact ⟨_, node, hnode, rfl⟩

/-- All records can be listed if their folder is there and nothing in it is an obstacle. -/
theorem IsWorkplace.exists_records_iff (h : store.IsWorkplace home) :
    (∃ records, store.records = .ok records) ↔
      store.files.root.kindAt (home ++ [recordFolder]) = some .folder ∧
        ∀ name kind, store.files.root.kindAt (home ++ [recordFolder, name]) = some kind →
          extension? name = some "json" → ∃ record, store.HoldsRecord home name record := by
  constructor
  · rintro ⟨records, hrecords⟩
    obtain ⟨es, found, hes, hfound, _⟩ := h.records_eq_ok_iff.1 hrecords
    refine ⟨by rw [FileTree.kindAt, hes]; rfl, fun name kind hkind => ?_⟩
    obtain ⟨node, hnode⟩ := (h.exists_kindAt_iff hes).1 ⟨kind, hkind⟩
    obtain ⟨read, _, hread⟩ := exists_mem_of_forall₂ hfound hnode
    exact (h.exists_recordOfEntry_iff (h.plain name kind hkind)).1 ⟨read, hread⟩
  · rintro ⟨hfolder, hall⟩
    obtain ⟨es, hes⟩ := FileTree.exists_entries_of_kindAt hfolder
    obtain ⟨found, hfound⟩ := @exists_forall₂ _ _
      (fun (entry : String × FileTree) read => store.recordOfEntry entry.1 = .ok read) es
      fun entry hentry => by
        obtain ⟨kind, hkind⟩ := (h.exists_kindAt_iff hes).2 ⟨entry.2, hentry⟩
        exact (h.exists_recordOfEntry_iff (h.plain _ kind hkind)).2 (hall _ kind hkind)
    exact ⟨_, h.records_eq_ok_iff.2 ⟨es, found, hes, hfound, rfl⟩⟩

/-- A record is listed if it is in a file with the right ending. -/
theorem IsWorkplace.mem_records_iff (h : store.IsWorkplace home) {records : List Attachment}
    (hrecords : store.records = .ok records) :
    record ∈ records ↔
      ∃ name, extension? name = some "json" ∧ store.HoldsRecord home name record := by
  obtain ⟨es, found, hes, hfound, rfl⟩ := h.records_eq_ok_iff.1 hrecords
  rw [List.mem_mergeSort, List.mem_filterMap]
  constructor
  · rintro ⟨read, hread, hrecord⟩
    obtain ⟨entry, hentry, hentryRead⟩ := exists_mem_of_forall₂ hfound.flip hread
    obtain ⟨kind, hkind⟩ := (h.exists_kindAt_iff hes).2 ⟨entry.2, hentry⟩
    obtain rfl : read = some record := hrecord
    exact ⟨entry.1, (h.recordOfEntry_eq_some_iff (h.plain _ kind hkind)).1 hentryRead⟩
  · rintro ⟨name, hextension, hholds⟩
    obtain ⟨contents, hkind, _⟩ := hholds.2
    obtain ⟨node, hnode⟩ := (h.exists_kindAt_iff hes).1 ⟨_, hkind⟩
    obtain ⟨read, hread, hentryRead⟩ := exists_mem_of_forall₂ hfound hnode
    have hrecord := (h.recordOfEntry_eq_some_iff (h.plain _ _ hkind)).2 ⟨hextension, hholds⟩
    exact ⟨read, hread, Except.ok.inj (hentryRead.symm.trans hrecord)⟩

end Read

/-! ### What is written -/

section Write

variable {store : DirectoryStore} {home front : List String} {last : String}
  {contents : ByteArray} {target : DirectoryStore → String}

/-- Without a folder to stage a file in, nothing is written. -/
theorem IsWorkplace.exists_writeStaged_error (h : store.IsWorkplace home)
    (hfolder : store.files.root.kindAt (home ++ [stagingFolder]) ≠ some .folder)
    (target : DirectoryStore → String) (contents : ByteArray) :
    ∃ e, StoreM.runIn store (writeStaged target contents) = (.error e, store) := by
  have hplain := h.isHome.plain_append isInside_staged
  have hfits := h.isHome.fits_append isInside_staged
  obtain ⟨e, he⟩ : ∃ e, store.files.locate
      (absolute (home ++ [stagingFolder, "staged"])) true = .error e := by
    rcases (h.isUnlinked _).cases h.kindAt_root with ⟨kind, hkind⟩ |
      ⟨above, name, rest, hsplit, hmissing⟩ | ⟨above, rest, bytes, hsplit, hrest, hfile⟩
    · rw [h.fresh] at hkind
      cases hkind
    · rw [hsplit] at hplain hfits ⊢
      refine ⟨.notFound, (locate_of_isMissing hplain hfits hmissing).trans (if_neg ?_)⟩
      -- Otherwise only the staged file itself would be missing.
      rintro rfl
      have hends : home ++ [stagingFolder] ++ ["staged"] = above ++ [name] := by simpa using hsplit
      obtain ⟨rfl, -⟩ := List.append_inj' hends rfl
      exact hfolder hmissing.folder
    · rw [hsplit] at hplain hfits ⊢
      exact ⟨_, locate_of_file_above hplain hfits h.kindAt_root hrest hfile⟩
  have hwrite : store.files.write store.stagingPath contents = .error e := by
    rw [stagingPath_eq h.isHome h.path, write, he]
    rfl
  have hfirst : StoreM.runIn store (act fun store =>
      store.files.write store.stagingPath contents) = (.error (.file e), store) :=
    StoreM.runIn_changeOrFail_error (by simp only [hwrite])
  exact ⟨.file e, by rw [writeStaged, StoreM.runIn_bind, hfirst]⟩

theorem IsWorkplace.exists_writeStaged (h : store.IsWorkplace home)
    (hfolder : store.files.root.kindAt (home ++ [stagingFolder]) = some .folder)
    (htarget : ∀ store : DirectoryStore, store.path = absolute home →
      target store = absolute (home ++ (front ++ [last])))
    (hinside : IsInside (front ++ [last])) (hpath : IsFilePath (front ++ [last]))
    (hfree : store.files.IsFree (home ++ (front ++ [last])))
    (hnone : store.files.root.kindAt (home ++ (front ++ [last])) = none) :
    ∃ files, StoreM.runIn store (writeStaged target contents) =
        (.ok (), { store with files := files }) ∧
      IsWorkplace { store with files := files } home ∧
      files.root.kindAt (home ++ (front ++ [last])) = some (.file contents) ∧
      ∀ path, ¬ path <+: front ++ [last] →
        files.root.kindAt (home ++ path) = store.files.root.kindAt (home ++ path) := by
  have hsplit : home ++ [stagingFolder, "staged"] = home ++ [stagingFolder] ++ ["staged"] := by simp
  obtain ⟨files, hrun, hadds⟩ := @exists_runIn_writeStaged _ _ _ store contents target h.isHome
    h.path h.wellFormed h.kindAt_root ⟨hfolder, hsplit ▸ h.fresh⟩ htarget hinside hpath hfree hnone
  have hkind : ∀ path, files.root.kindAt (home ++ path) =
      if path = front ++ [last] then some (.file contents)
      else if path <+: front then some .folder
      else store.files.root.kindAt (home ++ path) := by
    intro path
    rw [hadds.kindAt]
    simp only [List.append_assoc, List.append_cancel_left_eq, List.prefix_append_right_inj,
      List.cons_append, List.nil_append]
    split
    · rfl
    · split
      · -- Below the staged file there was nothing before.
        rename_i hstaged
        have hfront : ¬ path <+: front := fun hstart =>
          hpath.not_staged_prefix ((hstaged.trans hstart).trans (List.prefix_append _ _))
        obtain ⟨rest, rfl⟩ := hstaged
        rw [if_neg hfront, ← List.append_assoc]
        exact (FileTree.kindAt_append_of_none h.fresh rest).symm
      · rfl
  refine ⟨files, hrun, h.next hadds.wellFormed ?_ fun path kind hfound => ?_,
    (hkind _).trans (if_pos rfl), fun path hstart => ?_⟩
  · have hhome := hkind []
    rwa [if_neg (by simp), if_pos List.nil_prefix, List.append_nil] at hhome
  · rw [hkind] at hfound
    split at hfound
    · rename_i hlast
      refine .inr ⟨fun target htarget => ?_, hlast ▸ hinside.plain, fun hstaged => ?_⟩
      · rw [htarget] at hfound
        cases hfound
      · exact hpath.not_staged_prefix (by rw [← hlast, hstaged])
    · split at hfound
      · rename_i hstart
        refine .inr ⟨fun target htarget => ?_, fun name hname => hinside.plain name
          (List.mem_append_left _ (hstart.subset hname)), fun hstaged => ?_⟩
        · rw [htarget] at hfound
          cases hfound
        · exact hpath.not_staged_prefix (hstaged ▸ hstart.trans (List.prefix_append _ _))
      · exact .inl hfound
  · have hlast : path ≠ front ++ [last] := fun heq => hstart (heq ▸ List.prefix_rfl)
    have hfront : ¬ path <+: front := fun hfront => hstart (hfront.trans (List.prefix_append _ _))
    rw [hkind, if_neg hlast, if_neg hfront]

end Write

/-! ### Uploading -/

/-- What an upload comes to.  It fails and changes nothing, or trusts a record that is there and
changes nothing, or adds the record, with the contents unless something is in their place. -/
inductive PutOutcome (store : DirectoryStore) (home : List String) (record : Attachment)
    (contents : ByteArray) : Except StoreError String × DirectoryStore → Prop
  | failed (e : StoreError) : PutOutcome store home record contents (.error e, store)
  | trusted {found : Attachment} (hread : store.readRecord record.id = .ok (some found)) :
      PutOutcome store home record contents (.ok record.id, store)
  | written {next : DirectoryStore} (hread : store.readRecord record.id = .ok none)
      (hnext : next.IsWorkplace home)
      (hrecord : next.files.root.kindAt (home ++ [recordFolder, record.id ++ ".json"]) =
        some (.file (recordText record)))
      {there : Bool} (hexists : store.files.exists? (store.blobPath record.digest) = .ok there)
      (hblob : next.files.root.kindAt
          (home ++ [blobFolder, shardOf record.digest.toHex, record.digest.toHex]) =
        if there then store.files.root.kindAt
          (home ++ [blobFolder, shardOf record.digest.toHex, record.digest.toHex])
        else some (.file contents)) :
      PutOutcome store home record contents (.ok record.id, next)

section Put

variable {store : DirectoryStore} {home : List String} {record : Attachment}
  {contents : ByteArray}

theorem IsWorkplace.isFree_record (h : store.IsWorkplace home) (hid : IsAddress record.id)
    (hread : store.readRecord record.id = .ok none) :
    store.files.IsFree (home ++ [recordFolder, record.id ++ ".json"]) ∧
      store.files.root.kindAt (home ++ [recordFolder, record.id ++ ".json"]) = none := by
  have hinside := hid.isLookup.isInside
  refine (h.isUnlinked _).isFree_of_read h.kindAt_root (h.isHome.plain_append hinside)
    (h.isHome.fits_append hinside) ?_
  rw [readRecord, recordPath_eq h.isHome h.path hid.isLookup.no_slash] at hread
  split at hread
  · obtain ⟨found, _, hfound⟩ := map_eq_ok_iff.1 hread
    cases hfound
  · assumption
  · cases hread

/-- A path stays free if everything on it stays as it is. -/
theorem IsWorkplace.isFree_of_same {next : DirectoryStore} (hnext : next.IsWorkplace home)
    {path : List String} (hfree : store.files.IsFree (home ++ path))
    (hsame : ∀ name rest, name :: rest <+: path →
      next.files.root.kindAt (home ++ name :: rest) =
        store.files.root.kindAt (home ++ name :: rest)) : next.files.IsFree (home ++ path) := by
  intro front hfront
  rcases List.prefix_or_prefix_of_prefix hfront (List.prefix_append home _) with
    ⟨back, hback⟩ | ⟨rest, rfl⟩
  · have hhome := hnext.folder
    rw [← hback] at hhome
    exact .inr (FileTree.kindAt_front hhome)
  · cases rest with
    | nil => exact .inr (by rw [List.append_nil, hnext.folder])
    | cons name rest =>
        rw [hsame name rest ((List.prefix_append_right_inj home).1 hfront)]
        exact hfree _ hfront

/-- The record gets into its place if nothing is there. -/
theorem IsWorkplace.exists_writeRecord (h : store.IsWorkplace home)
    (hfolder : store.files.root.kindAt (home ++ [stagingFolder]) = some .folder)
    (hid : IsAddress record.id)
    (hfree : store.files.IsFree (home ++ [recordFolder, record.id ++ ".json"]))
    (hnone : store.files.root.kindAt (home ++ [recordFolder, record.id ++ ".json"]) = none) :
    ∃ next, StoreM.runIn store (writeStaged (fun store => store.recordPath record.id)
        (recordText record)) = (.ok (), next) ∧ next.IsWorkplace home ∧
      next.files.root.kindAt (home ++ [recordFolder, record.id ++ ".json"]) =
        some (.file (recordText record)) ∧
      ∀ path, ¬ path <+: [recordFolder, record.id ++ ".json"] →
        next.files.root.kindAt (home ++ path) = store.files.root.kindAt (home ++ path) := by
  obtain ⟨files, hrun, hnext⟩ := @IsWorkplace.exists_writeStaged store home [recordFolder]
    (record.id ++ ".json") (recordText record) (fun store => store.recordPath record.id) h hfolder
    (fun store hstore => recordPath_eq h.isHome hstore hid.isLookup.no_slash)
    hid.isLookup.isInside (isFilePath_record _) hfree hnone
  exact ⟨_, hrun, hnext⟩

theorem IsWorkplace.exists_writeBlob (h : store.IsWorkplace home)
    (hfolder : store.files.root.kindAt (home ++ [stagingFolder]) = some .folder)
    {digest : ContentDigest} (hdigest : IsAddress digest.toHex)
    (hexists : store.files.exists? (store.blobPath digest) = .ok false) :
    ∃ next, StoreM.runIn store (writeStaged (fun store => store.blobPath digest) contents) =
        (.ok (), next) ∧ next.IsWorkplace home ∧
      next.files.root.kindAt (home ++ [blobFolder, shardOf digest.toHex, digest.toHex]) =
        some (.file contents) ∧
      ∀ path, ¬ path <+: [blobFolder, shardOf digest.toHex, digest.toHex] →
        next.files.root.kindAt (home ++ path) = store.files.root.kindAt (home ++ path) := by
  have hinside := hdigest.isInside
  rw [blobPath_eq h.isHome h.path hdigest] at hexists
  obtain ⟨hfree, hnone⟩ := (h.isUnlinked _).isFree_of_exists? h.kindAt_root
    (h.isHome.plain_append hinside) (h.isHome.fits_append hinside) hexists
  obtain ⟨files, hrun, hnext⟩ := @IsWorkplace.exists_writeStaged store home
    [blobFolder, shardOf digest.toHex] digest.toHex contents (fun store => store.blobPath digest) h
    hfolder (fun store hstore => blobPath_eq h.isHome hstore hdigest) hinside (isFilePath_blob _ _)
    hfree hnone
  exact ⟨_, hrun, hnext⟩

theorem runIn_put_of_invalid {name nodeId : String} {e : StoreError}
    (hcheck : Attachment.checkName name = .error e) :
    StoreM.runIn store (put name nodeId contents) = (.error e, store) := by
  rw [put, hcheck]
  rfl

/-- With a valid name, the record is what is looked at first. -/
theorem runIn_put_of_valid {name nodeId : String} (hcheck : Attachment.checkName name = .ok ())
    (hrecord : Attachment.ofFile name nodeId contents = record) :
    StoreM.runIn store (put name nodeId contents) = (match store.readRecord record.id with
      | .error e => (.error e, store)
      | .ok (some _) => (.ok record.id, store)
      | .ok none => match store.files.exists? (store.blobPath record.digest) with
        | .error e => (.error (.file e), store)
        | .ok there => StoreM.runIn store (do
            unless there do
              writeStaged (fun store => store.blobPath record.digest) contents
            writeStaged (fun store => store.recordPath record.id) (recordText record)
            return record.id)) := by
  have hdone : StoreM.runIn store (liftExcept (Except.ok () : Except StoreError Unit) :
      StoreM DirectoryStore Unit) = (.ok (), store) := rfl
  have hlook : StoreM.runIn store (StoreM.look fun store => store.readRecord record.id) =
      (store.readRecord record.id, store) := rfl
  have hask : StoreM.runIn store
      (ask fun store => store.files.exists? (store.blobPath record.digest)) =
        ((store.files.exists? (store.blobPath record.digest)).mapError .file, store) := rfl
  rw [put, hcheck, hrecord, StoreM.runIn_bind, hdone]
  simp only [StoreM.runIn_bind store, hlook]
  cases store.readRecord record.id with
  | error e => rfl
  | ok found =>
      cases found with
      | some found => rfl
      | none =>
          simp only [Option.isSome_none, Bool.false_eq_true, if_false, StoreM.runIn_bind store, hask]
          cases store.files.exists? (store.blobPath record.digest) <;> rfl

/-- Without a record that could be trusted, what is staged first decides. -/
theorem IsWorkplace.putOutcome_of_none (h : store.IsWorkplace home) (hid : IsAddress record.id)
    (hdigest : IsAddress record.digest.toHex) (hread : store.readRecord record.id = .ok none)
    {there : Bool} (hexists : store.files.exists? (store.blobPath record.digest) = .ok there) :
    PutOutcome store home record contents (StoreM.runIn store (do
      unless there do
        writeStaged (fun store => store.blobPath record.digest) contents
      writeStaged (fun store => store.recordPath record.id) (recordText record)
      return record.id)) := by
  obtain ⟨hfree, hnone⟩ := h.isFree_record hid hread
  have hrecordBlob : ¬ [blobFolder, shardOf record.digest.toHex, record.digest.toHex] <+:
      [recordFolder, record.id ++ ".json"] := fun hstart =>
    recordFolder_ne_blobFolder (List.cons_prefix_cons.1 hstart).1.symm
  by_cases hfolder : store.files.root.kindAt (home ++ [stagingFolder]) = some .folder
  · cases there with
    | true =>
        obtain ⟨next, hrun, hnext, hrecord, hsame⟩ := h.exists_writeRecord hfolder hid hfree hnone
        simp only [if_true, StoreM.runIn_bind, hrun]
        exact .written hread hnext hrecord hexists (by rw [if_pos rfl, hsame _ hrecordBlob])
    | false =>
        obtain ⟨middle, hrun, hmiddle, hblob, hsame⟩ :=
          @IsWorkplace.exists_writeBlob store home contents h hfolder record.digest hdigest hexists
        -- The contents are beside the folders that the record needs.
        have hbeside : ∀ name rest, name ≠ blobFolder →
            middle.files.root.kindAt (home ++ name :: rest) =
              store.files.root.kindAt (home ++ name :: rest) := fun name rest hname =>
          hsame _ fun hstart => hname (List.cons_prefix_cons.1 hstart).1
        have hmiddleFree := hmiddle.isFree_of_same hfree fun name rest hstart =>
          hbeside name rest ((List.cons_prefix_cons.1 hstart).1 ▸ recordFolder_ne_blobFolder)
        obtain ⟨next, hrun', hnext, hrecord, hsame'⟩ := hmiddle.exists_writeRecord
          ((hbeside _ _ (by decide)).trans hfolder) hid hmiddleFree
          ((hbeside _ _ recordFolder_ne_blobFolder).trans hnone)
        simp only [Bool.false_eq_true, if_false, StoreM.runIn_bind, hrun, hrun']
        exact .written hread hnext hrecord hexists
          (by rw [if_neg (by decide), hsame' _ hrecordBlob, hblob])
  · obtain ⟨e, he⟩ := h.exists_writeStaged_error hfolder
      (fun store => store.recordPath record.id) (recordText record)
    obtain ⟨e', he'⟩ := h.exists_writeStaged_error hfolder
      (fun store => store.blobPath record.digest) contents
    cases there with
    | true =>
        simp only [if_true, StoreM.runIn_bind, he]
        exact .failed e
    | false =>
        simp only [Bool.false_eq_true, if_false, StoreM.runIn_bind, he']
        exact .failed e'

theorem IsWorkplace.putOutcome (h : store.IsWorkplace home) (name nodeId : String)
    (contents : ByteArray) :
    PutOutcome store home (.ofFile name nodeId contents) contents
      (StoreM.runIn store (put name nodeId contents)) := by
  obtain ⟨record, hrecord⟩ : ∃ record, record = Attachment.ofFile name nodeId contents := ⟨_, rfl⟩
  have hid : IsAddress record.id := hrecord ▸ isAddress_of _
  have hdigest : IsAddress record.digest.toHex := hrecord ▸ isAddress_of contents
  rw [← hrecord]
  cases hcheck : Attachment.checkName name with
  | error e =>
      rw [runIn_put_of_invalid hcheck]
      exact .failed e
  | ok _ =>
      rw [runIn_put_of_valid hcheck hrecord.symm]
      cases hread : store.readRecord record.id with
      | error e => exact .failed e
      | ok found =>
          cases found with
          | some found => exact .trusted hread
          | none =>
              cases hexists : store.files.exists? (store.blobPath record.digest) with
              | error e => exact .failed (.file e)
              | ok there => exact h.putOutcome_of_none hid hdigest hread hexists

end Put

end InfraGraph.DirectoryStore
