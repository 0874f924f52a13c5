import InfraGraph.Attachment.Memory
import InfraGraph.Proofs.Attachment.Place
import InfraGraph.Proofs.Attachment.Record
import InfraGraph.Proofs.Failure

/-!
# Directories that mirror a store in memory

A directory mirrors a store in memory if the files below it are the records and contents of that
store, each in its place, and nothing else is there but the folders that they are in.  What is read
from such a directory is then what the store in memory has.
-/

namespace InfraGraph

/-- Everything in the store can be written to files and read back. -/
structure MemoryStore.IsWritable (store : MemoryStore) : Prop where
  id : ∀ id record, store.records.find? id = some record →
    record.id = id ∧ DirectoryStore.IsAddress id
  record : ∀ id record, store.records.find? id = some record → record.IsWritable
  blob : ∀ key contents, store.blobs.find? key = some contents → DirectoryStore.IsAddress key

theorem MemoryStore.IsWritable.isAddress_digest {memory : MemoryStore} (h : memory.IsWritable)
    {id : String} {record : Attachment} (hrecord : memory.records.find? id = some record) :
    DirectoryStore.IsAddress record.digest.toHex :=
  ⟨record.digest, (h.record id record hrecord).digest, rfl⟩

namespace DirectoryStore

open InfraGraph.Path FileSystem

/-- The files of a store, by their paths below its folder. -/
inductive Keeps (memory : MemoryStore) : List String → ByteArray → Prop
  | record {id : String} {record : Attachment} (h : memory.records.find? id = some record) :
      Keeps memory [recordFolder, id ++ ".json"] (recordText record)
  | blob {key : String} {contents : ByteArray} (h : memory.blobs.find? key = some contents) :
      Keeps memory [blobFolder, shardOf key, key] contents

/-- What there is below the folder of a store: its files, and the folders that these are in. -/
inductive Holds (memory : MemoryStore) (path : List String) : FileTree.Kind → Prop
  | file {contents : ByteArray} (h : Keeps memory path contents) : Holds memory path (.file contents)
  | folder (h : IsFolderPath path) : Holds memory path .folder

/-- The files of a directory are those of a store in memory. -/
structure Mirrors (store : DirectoryStore) (home : List String) (memory : MemoryStore) : Prop where
  path : store.path = absolute home
  wellFormed : store.files.root.WellFormed
  writable : memory.IsWritable
  kept : ∀ path contents, Keeps memory path contents →
    store.files.root.kindAt (home ++ path) = some (.file contents)
  holds : ∀ path kind, store.files.root.kindAt (home ++ path) = some kind → Holds memory path kind
  folders : ∀ name ∈ [stagingFolder, blobFolder, recordFolder],
    store.files.root.kindAt (home ++ [name]) = some .folder

section Keeps

variable {memory : MemoryStore} {path : List String} {id key : String} {contents : ByteArray}

theorem Keeps.isFilePath (h : Keeps memory path contents) : IsFilePath path := by
  cases h with
  | record h => exact isFilePath_record _
  | blob h => exact isFilePath_blob _ _

theorem fileName_inj {a b ending : String} (h : a ++ ending = b ++ ending) : a = b := by
  rw [← String.toList_inj] at h ⊢
  rw [String.toList_append, String.toList_append] at h
  exact List.append_cancel_right h

theorem Keeps.exists_record {name : String} (h : Keeps memory [recordFolder, name] contents) :
    ∃ id record, memory.records.find? id = some record ∧ id ++ ".json" = name ∧
      recordText record = contents := by
  generalize hpath : [recordFolder, name] = path at h
  cases h with
  | record h =>
      simp only [List.cons.injEq, true_and, and_true] at hpath
      exact ⟨_, _, h, hpath.symm, rfl⟩
  | blob h => exact absurd (congrArg List.length hpath) (by simp)

theorem keeps_record_iff :
    Keeps memory [recordFolder, id ++ ".json"] contents ↔
      ∃ record, memory.records.find? id = some record ∧ recordText record = contents := by
  constructor
  · intro h
    obtain ⟨other, record, hfind, hname, htext⟩ := h.exists_record
    exact ⟨record, fileName_inj hname ▸ hfind, htext⟩
  · rintro ⟨record, h, rfl⟩
    exact .record h

theorem keeps_blob_iff :
    Keeps memory [blobFolder, shardOf key, key] contents ↔
      memory.blobs.find? key = some contents := by
  constructor
  · intro h
    generalize hpath : [blobFolder, shardOf key, key] = path at h
    cases h with
    | record h => exact absurd (congrArg List.length hpath) (by simp)
    | blob h =>
        simp only [List.cons.injEq, true_and, and_true] at hpath
        rwa [hpath.2]
  · exact .blob

end Keeps

/-! ### Single files -/

section Files

variable {store : DirectoryStore} {home path : List String} {memory : MemoryStore}
  {contents : ByteArray}

theorem Mirrors.file (h : store.Mirrors home memory) :
    store.files.root.kindAt (home ++ path) = some (.file contents) ↔
      Keeps memory path contents := by
  refine ⟨fun hkind => ?_, h.kept path contents⟩
  cases h.holds path _ hkind with
  | file hkeeps => exact hkeeps

theorem Mirrors.link (h : store.Mirrors home memory) (target : String) :
    store.files.root.kindAt (home ++ path) ≠ some (.link target) := by
  intro hkind
  cases h.holds path _ hkind

theorem Mirrors.folder (h : store.Mirrors home memory)
    (hkind : store.files.root.kindAt (home ++ path) = some .folder) : IsFolderPath path := by
  cases h.holds path _ hkind with
  | folder hpath => exact hpath

theorem Mirrors.kindAt_home (h : store.Mirrors home memory) :
    store.files.root.kindAt home = some .folder :=
  FileTree.kindAt_front (h.folders stagingFolder (by simp))

theorem Mirrors.kindAt_root (h : store.Mirrors home memory) :
    store.files.root.kindAt [] = some .folder := by
  have hhome := h.kindAt_home
  rw [← List.nil_append home] at hhome
  exact FileTree.kindAt_front hhome

/-- On the way to a file that the store doesn't have there is nothing but folders. -/
theorem Mirrors.isFree (h : store.Mirrors home memory) (hpath : IsFilePath path)
    (hnone : ∀ contents, ¬ Keeps memory path contents) : store.files.IsFree (home ++ path) := by
  rintro front ⟨back, hsplit⟩
  rcases List.append_eq_append_iff.1 hsplit with ⟨rest, rfl, _⟩ | ⟨rest, rfl, rfl⟩
  · exact .inr (FileTree.kindAt_front h.kindAt_home)
  · cases hkind : store.files.root.kindAt (home ++ rest) with
    | none => exact .inl rfl
    | some kind =>
        cases kind with
        | folder => exact .inr rfl
        | link target => exact absurd hkind (h.link target)
        | file contents =>
            have hkeeps := h.file.1 hkind
            rw [hpath.eq_of_prefix hkeeps.isFilePath (List.prefix_append rest back)] at hkeeps
            exact absurd hkeeps (hnone contents)

theorem Mirrors.exists_isMissing (h : store.Mirrors home memory) (hpath : IsFilePath path)
    (hnone : ∀ contents, ¬ Keeps memory path contents) :
    ∃ front name rest, home ++ path = front ++ name :: rest ∧
      store.files.IsMissing front name := by
  refine ((h.isFree hpath hnone).folder_or_isMissing h.kindAt_root).resolve_left fun hfolder => ?_
  exact hpath.not_isFolderPath (h.folder hfolder)

theorem Mirrors.read_of_keeps (h : store.Mirrors home memory) (hhome : IsHome home)
    (hinside : IsInside path) (hkeeps : Keeps memory path contents) :
    store.files.read (absolute (home ++ path)) = .ok contents :=
  read_file (hhome.plain_append hinside) (hhome.fits_append hinside) (h.kept _ _ hkeeps)

theorem Mirrors.read_of_not_keeps (h : store.Mirrors home memory)
    (hplain : ∀ name ∈ home ++ path, IsPlain name) (hfits : Fits (home ++ path))
    (hpath : IsFilePath path) (hnone : ∀ contents, ¬ Keeps memory path contents) :
    store.files.read (absolute (home ++ path)) = .error .notFound := by
  obtain ⟨front, name, rest, hsplit, hmissing⟩ := h.exists_isMissing hpath hnone
  rw [hsplit] at hplain hfits ⊢
  exact read_missing hplain hfits hmissing

theorem Mirrors.exists?_of_keeps (h : store.Mirrors home memory) (hhome : IsHome home)
    (hinside : IsInside path) (hkeeps : Keeps memory path contents) :
    store.files.exists? (absolute (home ++ path)) = .ok true :=
  exists?_file (hhome.plain_append hinside) (hhome.fits_append hinside) (h.kept _ _ hkeeps)

theorem Mirrors.exists?_of_not_keeps (h : store.Mirrors home memory) (hhome : IsHome home)
    (hinside : IsInside path) (hpath : IsFilePath path)
    (hnone : ∀ contents, ¬ Keeps memory path contents) :
    store.files.exists? (absolute (home ++ path)) = .ok false := by
  obtain ⟨front, name, rest, hsplit, hmissing⟩ := h.exists_isMissing hpath hnone
  have hplain := hhome.plain_append hinside
  have hfits := hhome.fits_append hinside
  rw [hsplit] at hplain hfits ⊢
  exact exists?_missing hplain hfits hmissing

theorem Mirrors.removeFile_of_not_keeps (h : store.Mirrors home memory) (hhome : IsHome home)
    (hinside : IsInside path) (hpath : IsFilePath path)
    (hnone : ∀ contents, ¬ Keeps memory path contents) :
    store.files.removeFile (absolute (home ++ path)) = .error .notFound := by
  obtain ⟨front, name, rest, hsplit, hmissing⟩ := h.exists_isMissing hpath hnone
  have hplain := hhome.plain_append hinside
  have hfits := hhome.fits_append hinside
  rw [hsplit] at hplain hfits ⊢
  exact removeFile_missing hplain hfits hmissing

end Files

/-! ### Records and contents -/

section Lookups

variable {store : DirectoryStore} {home : List String} {memory : MemoryStore}

theorem readRecord_of_read {id : String} {contents : ByteArray}
    (h : store.files.read (store.recordPath id) = .ok contents) :
    store.readRecord id = (recordOfBytes contents).map some := by
  delta readRecord
  rw [h]

theorem length_digest_of_readRecord {id : String} {record : Attachment}
    (h : store.readRecord id = .ok (some record)) :
    record.digest.bytes.length = ContentDigest.size := by
  rw [readRecord] at h
  split at h
  · obtain ⟨read, hread, hrecord⟩ := map_eq_ok_iff.1 h
    obtain rfl := Option.some.inj hrecord
    exact length_digest_of_recordOfBytes hread
  · cases h
  · cases h

theorem readRecord_of_notFound {id : String}
    (h : store.files.read (store.recordPath id) = .error .notFound) :
    store.readRecord id = .ok none := by
  delta readRecord
  rw [h]

theorem readRecord_of_error {id : String} {e : FileError}
    (h : store.files.read (store.recordPath id) = .error e) (hne : e ≠ .notFound) :
    store.readRecord id = .error (.file e) := by
  delta readRecord
  rw [h]
  cases e <;> first | rfl | exact absurd rfl hne

/-- The record that is read for an id is the one in memory. -/
theorem Mirrors.readRecord_of_fits (h : store.Mirrors home memory) (hhome : IsHome home)
    {id : String} (hid : '/' ∉ id.toList) (hfits : Fits (home ++ [recordFolder, id ++ ".json"])) :
    store.readRecord id = .ok (memory.records.find? id) := by
  have hpath := recordPath_eq hhome h.path hid
  have hplain : ∀ name ∈ home ++ [recordFolder, id ++ ".json"], IsPlain name :=
    List.forall_mem_append.2 ⟨hhome.plain, isPlain_recordPath hid⟩
  cases hrecord : memory.records.find? id with
  | some record =>
      have hread := read_file hplain hfits (h.kept _ _ (.record hrecord))
      rw [← hpath] at hread
      rw [readRecord_of_read hread, recordOfBytes_recordText (h.writable.record id record hrecord)]
      rfl
  | none =>
      have hnone : ∀ contents, ¬ Keeps memory [recordFolder, id ++ ".json"] contents := by
        simp [keeps_record_iff, hrecord]
      have hread := h.read_of_not_keeps hplain hfits (isFilePath_record _) hnone
      rw [← hpath] at hread
      exact readRecord_of_notFound hread

theorem Mirrors.readRecord_eq (h : store.Mirrors home memory) (hhome : IsHome home) {id : String}
    (hid : IsLookup id) : store.readRecord id = .ok (memory.records.find? id) :=
  h.readRecord_of_fits hhome hid.no_slash (hhome.fits_append hid.isInside)

/-- For an id without a slash no other record is read, and none if the path doesn't fit. -/
theorem Mirrors.readRecord_eq_or_error (h : store.Mirrors home memory) (hhome : IsHome home)
    {id : String} (hid : '/' ∉ id.toList) :
    store.readRecord id = .ok (memory.records.find? id) ∨ ∃ e, store.readRecord id = .error e := by
  by_cases hfits : Fits (home ++ [recordFolder, id ++ ".json"])
  · exact .inl (h.readRecord_of_fits hhome hid hfits)
  · have hsplit : home ++ [recordFolder, id ++ ".json"] =
        home ++ [recordFolder] ++ [id ++ ".json"] := by simp
    have hplain : ∀ name ∈ home ++ [recordFolder] ++ [id ++ ".json"], IsPlain name :=
      hsplit ▸ List.forall_mem_append.2 ⟨hhome.plain, isPlain_recordPath hid⟩
    obtain ⟨e, he, hne⟩ := @exists_locate_eq_error store.files _ _ true hplain (hsplit ▸ hfits)
      (h.folders recordFolder (by simp)) "" (.inl rfl)
    rw [String.append_empty, ← hsplit, ← recordPath_eq hhome h.path hid] at he
    have hread : store.files.read (store.recordPath id) = .error e := by
      rw [FileSystem.read, FileSystem.node, he]
      rfl
    exact .inr ⟨.file e, readRecord_of_error hread hne⟩

theorem Mirrors.get_eq (h : store.Mirrors home memory) (hhome : IsHome home) {id : String}
    (hid : IsLookup id) : store.get id = memory.get id := by
  rw [get, h.readRecord_eq hhome hid, MemoryStore.get]
  cases hrecord : memory.records.find? id with
  | none => rfl
  | some record =>
      have hdigest := h.writable.isAddress_digest hrecord
      simp only [bind, Except.bind, blobPath_eq hhome h.path hdigest]
      cases hblob : memory.blobs.find? record.digest.toHex with
      | some contents =>
          rw [h.read_of_keeps hhome hdigest.isInside (.blob hblob)]
          rfl
      | none =>
          have hnone : ∀ contents, ¬ Keeps memory
              [blobFolder, shardOf record.digest.toHex, record.digest.toHex] contents := by
            simp [keeps_blob_iff, hblob]
          rw [h.read_of_not_keeps (hhome.plain_append hdigest.isInside)
            (hhome.fits_append hdigest.isInside) (isFilePath_blob _ _) hnone]

end Lookups

/-! ### All records -/

section Listing

variable {store : DirectoryStore} {home : List String} {memory : MemoryStore}

theorem kindAt_entry {t node : FileTree} {path : List String} {es : List (String × FileTree)}
    {name : String} (hes : t.find? path = some (.folder es)) (hascending : Entries.Ascending es)
    (hentry : (name, node) ∈ es) : t.kindAt (path ++ [name]) = some node.kind := by
  rw [FileTree.kindAt_append hes, FileTree.kindAt_folder_cons,
    hascending.find?_eq_some_iff.2 hentry]
  simp [FileTree.kindAt]

/-- Every entry of the folder of records is the file of a record. -/
theorem Mirrors.exists_recordOfEntry (h : store.Mirrors home memory) (hhome : IsHome home)
    {es : List (String × FileTree)}
    (hes : store.files.root.find? (home ++ [recordFolder]) = some (.folder es))
    (hascending : Entries.Ascending es) {entry : String × FileTree} (hentry : entry ∈ es) :
    ∃ record, memory.records.find? record.id = some record ∧ record.id ++ ".json" = entry.1 ∧
      store.recordOfEntry entry.1 = .ok (some record) := by
  obtain ⟨name, node⟩ := entry
  have hkind := kindAt_entry hes hascending hentry
  rw [List.append_assoc] at hkind
  cases node with
  | link target => exact absurd hkind (h.link target)
  | folder es => exact absurd (h.folder hkind) (isFilePath_record name).not_isFolderPath
  | file contents =>
      obtain ⟨id, record, hrecord, rfl, _⟩ := (h.file.1 hkind).exists_record
      obtain ⟨rfl, haddress⟩ := h.writable.id id record hrecord
      have hinside := haddress.isLookup.isInside
      have hread := h.read_of_keeps hhome hinside (.record hrecord)
      refine ⟨record, hrecord, rfl, ?_⟩
      rw [recordOfEntry, if_pos (extension?_fileName haddress.toList_ne_nil), h.path,
        join_join_absolute hhome hinside.plain, hread]
      simp only [recordOfBytes_recordText (h.writable.record _ record hrecord), Except.map]

theorem Mirrors.mem_entries (h : store.Mirrors home memory)
    {es : List (String × FileTree)}
    (hes : store.files.root.find? (home ++ [recordFolder]) = some (.folder es))
    (hascending : Entries.Ascending es) {record : Attachment}
    (hrecord : memory.records.find? record.id = some record) :
    record.id ++ ".json" ∈ es.map (·.1) := by
  have hkind := h.kept _ _ (.record hrecord)
  have hsplit : home ++ [recordFolder, record.id ++ ".json"] =
      home ++ [recordFolder] ++ [record.id ++ ".json"] := by simp
  rw [hsplit, FileTree.kindAt_append hes, FileTree.kindAt_folder_cons, Option.bind_eq_some_iff]
    at hkind
  obtain ⟨node, hnode, _⟩ := hkind
  exact List.mem_map.2 ⟨_, hascending.find?_eq_some_iff.1 hnode, rfl⟩

/-- All records that are read are those in memory, in the same order. -/
theorem Mirrors.records_eq (h : store.Mirrors home memory) (hhome : IsHome home) :
    store.records = .ok memory.records.values := by
  have hinside : IsInside [recordFolder] := isInside_folder (by simp)
  obtain ⟨es, hes⟩ := FileTree.exists_entries_of_kindAt (h.folders recordFolder (by simp))
  have hascending := (FileTree.wellFormed_folder_iff.1 (h.wellFormed.of_find? hes)).1
  have hlist : store.files.list (join store.path recordFolder) = .ok es := by
    rw [h.path, join_absolute_name hhome.plain (hinside.plain _ (by simp))]
    exact list_absolute (hhome.plain_append hinside) (hhome.fits_append hinside) hes
  obtain ⟨found, hfound⟩ := exists_forall₂ fun entry hentry =>
    h.exists_recordOfEntry hhome hes hascending hentry
  have hread : (es.mapM fun entry => store.recordOfEntry entry.1) = .ok (found.map some) := by
    rw [mapM_eq_ok_iff, List.forall₂_map_right_iff]
    exact hfound.imp fun _ _ hentry => hentry.2.2
  have hnames : es.map (·.1) = found.map fun record => record.id ++ ".json" :=
    map_eq_map_of_forall₂ (hfound.imp fun _ _ hentry => hentry.2.1.symm)
  have hnodup : found.Nodup := List.Nodup.of_map _ (hnames ▸ hascending.keys_nodup)
  have hmem : ∀ record, record ∈ found ↔ memory.records.find? record.id = some record := by
    have hall : ∀ record ∈ found, memory.records.find? record.id = some record :=
      ((List.forall₂_and_left _ _).1 (hfound.flip.imp fun _ _ hentry => hentry)).1
    refine fun record => ⟨hall record, fun hrecord => ?_⟩
    have hname := h.mem_entries hes hascending hrecord
    rw [hnames, List.mem_map] at hname
    obtain ⟨other, hother, hsame⟩ := hname
    have hfind := hall other hother
    rw [fileName_inj hsame, hrecord, Option.some.injEq] at hfind
    rwa [hfind]
  rw [records, hlist]
  simp only [hread, bind, Except.bind, pure, Except.pure, List.filterMap_map]
  simp only [Function.comp_def, id_eq, List.filterMap_some]
  rw [mergeSort_eq_values (fun id record hfind => (h.writable.id id record hfind).1) hnodup hmem]

end Listing

end DirectoryStore

end InfraGraph
