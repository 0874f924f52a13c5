import InfraGraph.Proofs.Attachment.Agreement

/-!
# A store has exactly the contents that its records name

Whatever is done to a store, no contents are lost that a record names, and none are left that no
record names.  In a directory this takes that every record which is read to be removed is one of
the store: an id is taken as a path, so it may lead to a file that isn't, and a record there that
names other contents than the record of the store with the same id leaves contents behind.
-/

namespace InfraGraph

namespace MemoryStore

/-- The contents are those that records name, and all is kept under its own address. -/
structure IsExact (store : MemoryStore) : Prop where
  named : ∀ key, (∃ contents, store.blobs.find? key = some contents) ↔
    ∃ record ∈ store.records.values, record.digest.toHex = key
  blob : ∀ key contents, store.blobs.find? key = some contents →
    (ContentDigest.of contents).toHex = key
  record : ∀ id record, store.records.find? id = some record → record.id = id

/-- Every record is the one of its contents. -/
def IsFaithful (store : MemoryStore) : Prop :=
  ∀ id record contents, store.records.find? id = some record →
    store.blobs.find? record.digest.toHex = some contents →
    record = Attachment.ofFile record.name record.nodeId contents

variable {store : MemoryStore} {uploads : List Upload}

theorem IsTidy.isExact (h : store.IsTidy uploads) : store.IsExact :=
  ⟨fun key => (h.named key).trans exists_mem_values_iff.symm,
    fun key contents hfind => (h.blobs key contents hfind).1,
    fun id record hfind => (h.records id record hfind).1⟩

theorem IsTidy.isFaithful (h : store.IsTidy uploads)
    (hapart : NoContentsCollision uploads) : store.IsFaithful := by
  intro id record contents hrecord hblob
  obtain ⟨_, u, hu, rfl⟩ := h.records id record hrecord
  obtain ⟨hdigest, v, hv, rfl⟩ := h.blobs _ _ hblob
  rw [hapart v hv u hu (ContentDigest.toHex_inj hdigest)]
  rfl

end MemoryStore

namespace DirectoryStore

open InfraGraph.Path FileSystem

/-- A record that is read to be removed is one of the store. -/
def ReadsOwn (store : DirectoryStore) : StoreStep → Prop
  | .request (.deleteOne id) => ∀ record, store.readRecord id = .ok (some record) →
    ∃ records, store.records = .ok records ∧ record ∈ records
  | _ => True

/-- All records that are read to be removed are of the store, with the state carried along. -/
def ReadsOwnAlong : DirectoryStore → List StoreStep → Prop
  | _, [] => True
  | store, step :: rest => ReadsOwn store step ∧ ReadsOwnAlong (step.next store) rest

section Exact

variable {home : List String} {store : DirectoryStore} {memory : MemoryStore}
  {uploads : List Upload}

theorem Yields.next {α : Type} {operation : StoreM DirectoryStore α}
    {answer : Except StoreError α} (h : Yields home store operation answer memory)
    (htidy : memory.IsTidy uploads) :
    ∃ kept : MemoryStore, (StoreM.runIn store operation).2.Mirrors home kept ∧
      kept.IsTidy uploads ∧ SameOutside home store (StoreM.runIn store operation).2 := by
  obtain ⟨next, hrun, hnext, hsame⟩ := h
  rw [hrun]
  exact ⟨memory, hnext, htidy, hsame⟩

theorem Mirrors.yields_deleteOne_own (h : store.Mirrors home memory) (hhome : IsHome home)
    (htidy : memory.IsTidy uploads) {id : String}
    (hown : ReadsOwn store (.request (.deleteOne id))) :
    ∃ answer kept, Yields home store (AttachmentStore.deleteOne id) answer kept ∧
      kept.IsTidy uploads := by
  cases hread : store.readRecord id with
  | error e => exact ⟨_, _, h.yields_deleteOne_error hread, htidy⟩
  | ok found =>
      cases found with
      | none => exact ⟨_, _, h.yields_deleteOne_unknown hread, htidy⟩
      | some record =>
          obtain ⟨records, hrecords, hmem⟩ := hown record hread
          rw [h.records_eq hhome, Except.ok.injEq] at hrecords
          have hrecord : memory.records.find? record.id = some record :=
            (mem_values_iff_find?_id fun id found hfind => (htidy.records id found hfind).1).1
              (hrecords ▸ hmem)
          exact ⟨_, _, h.yields_deleteOne hhome hread hrecord
            (h.writable.isAddress_digest hrecord), htidy.without hrecord⟩

/-- Every step leaves a mirror of a tidy store. -/
theorem Mirrors.exists_next (h : store.Mirrors home memory) (hhome : IsHome home)
    (htidy : memory.IsTidy uploads) {step : StoreStep} (hown : ReadsOwn store step)
    (hupload : step.upload?.toList ⊆ uploads)
    (hsize : ∀ u ∈ uploads, u.contents.size ≤ Json.maxWord) :
    ∃ kept : MemoryStore, (step.next store).Mirrors home kept ∧ kept.IsTidy uploads ∧
      SameOutside home store (step.next store) := by
  have hnext := htidy.next step hupload
  cases step with
  | reopen => exact (h.yields_reopen hhome).next hnext
  | request request =>
      cases request with
      | put name nodeId contents =>
          refine (h.agree_put hhome name nodeId fun hname => ?_).next hnext
          exact hsize ⟨nodeId, name, contents⟩ (hupload (by simp [StoreStep.upload?, hname]))
      | stat id => exact ⟨memory, h, htidy, fun _ _ => rfl⟩
      | get id => exact ⟨memory, h, htidy, fun _ _ => rfl⟩
      | list => exact ⟨memory, h, htidy, fun _ _ => rfl⟩
      | deleteAll => exact (h.yields_deleteAll hhome).next hnext
      | deleteOne id =>
          obtain ⟨answer, kept, hyields, hkept⟩ := h.yields_deleteOne_own hhome htidy hown
          exact hyields.next hkept
      | deleteOfNode nodeId => exact (h.yields_deleteOfNode hhome htidy nodeId).next hnext

theorem Mirrors.exists_afterAll (hhome : IsHome home)
    (hsize : ∀ u ∈ uploads, u.contents.size ≤ Json.maxWord) {steps : List StoreStep}
    (h : store.Mirrors home memory) (htidy : memory.IsTidy uploads)
    (hown : ReadsOwnAlong store steps) (hupload : uploadsOf steps ⊆ uploads) :
    ∃ kept : MemoryStore, (afterAll store steps).Mirrors home kept ∧ kept.IsTidy uploads ∧
      SameOutside home store (afterAll store steps) := by
  induction steps generalizing store memory with
  | nil => exact ⟨memory, h, htidy, fun _ _ => rfl⟩
  | cons step rest ih =>
      obtain ⟨hfirst, hrest⟩ := uploadsOf_cons_subset hupload
      obtain ⟨middle, hmiddle, htidy, hsame⟩ := h.exists_next hhome htidy hown.1 hfirst hsize
      obtain ⟨kept, hkept, htidy, hsame'⟩ := ih hmiddle htidy hown.2 hrest
      exact ⟨kept, hkept, htidy, fun path hpath => (hsame' path hpath).trans (hsame path hpath)⟩

/-- Both kinds of stores are exact after every sequence of steps, a store in a directory as long as
the records that are read to be removed are its own. -/
theorem isExact_afterAll (steps : List StoreStep) :
    ((afterAll MemoryStore.empty steps).IsExact ∧
      (NoContentsCollision (uploadsOf steps) →
        (afterAll MemoryStore.empty steps).IsFaithful)) ∧
    ∀ {files : FileSystem} {home : List String}, IsVacant files home →
      (∀ u ∈ uploadsOf steps, u.contents.size ≤ Json.maxWord) →
      ∃ store, openAt files (absolute home) = .ok store ∧
        (ReadsOwnAlong store steps →
          ∃ kept : MemoryStore, (afterAll store steps).Mirrors home kept ∧ kept.IsExact ∧
            (NoContentsCollision (uploadsOf steps) → kept.IsFaithful) ∧
            SameOutside home store (afterAll store steps)) := by
  have htidy := MemoryStore.isTidy_afterAll steps
  refine ⟨⟨htidy.isExact, htidy.isFaithful⟩, fun {files home} hvacant hsize => ?_⟩
  obtain ⟨store, hopen, hmirrors, _⟩ := hvacant.exists_openAt
  refine ⟨store, hopen, fun hown => ?_⟩
  obtain ⟨kept, hkept, htidy, hsame⟩ := hmirrors.exists_afterAll hvacant.isHome hsize
    (MemoryStore.isTidy_empty (uploadsOf steps)) hown (List.Subset.refl _)
  exact ⟨kept, hkept, htidy.isExact, htidy.isFaithful, hsame⟩

/-- Nothing but an id that leads out of the folder of records leads to another record. -/
theorem Mirrors.readsOwn_of_isOrdinary (h : store.Mirrors home memory) (hhome : IsHome home)
    {step : StoreStep} (hstep : IsOrdinary step) : ReadsOwn store step := by
  cases step with
  | reopen => trivial
  | request request =>
      cases request with
      | deleteOne id =>
          intro record hread
          rw [h.readRecord_eq hhome hstep, Except.ok.injEq] at hread
          exact ⟨_, h.records_eq hhome, SortedMap.mem_values_iff.2 ⟨id, hread⟩⟩
      | _ => trivial

theorem Mirrors.readsOwnAlong_of_isOrdinary (hhome : IsHome home) {steps : List StoreStep}
    (h : store.Mirrors home memory) (htidy : memory.IsTidy uploads)
    (hsteps : ∀ step ∈ steps, IsOrdinary step) (hupload : uploadsOf steps ⊆ uploads) :
    ReadsOwnAlong store steps := by
  induction steps generalizing store memory with
  | nil => trivial
  | cons step rest ih =>
      rw [List.forall_mem_cons] at hsteps
      obtain ⟨hfirst, hrest⟩ := uploadsOf_cons_subset hupload
      exact ⟨h.readsOwn_of_isOrdinary hhome hsteps.1,
        ih (h.agree hhome htidy hsteps.1).2 (htidy.next step hfirst) hsteps.2 hrest⟩

end Exact

namespace NewStore

theorem isExact_afterAll_steps :
    (afterAll MemoryStore.empty steps).IsExact ∧
      ∃ store, openAt ⟨.folder [], []⟩ (absolute home) = .ok store ∧
        ∃ kept : MemoryStore, (afterAll store steps).Mirrors home kept ∧ kept.IsExact ∧
          kept.IsFaithful := by
  have hvacant := isVacant_of_bareRoot isHome_home []
  have hsize : ∀ u ∈ uploadsOf steps, u.contents.size ≤ Json.maxWord := by
    rw [uploadsOf_steps, List.forall_mem_singleton]
    decide
  have hapart : NoContentsCollision (uploadsOf steps) := by
    intro a ha b hb _
    rw [uploadsOf_steps, List.mem_singleton] at ha hb
    rw [ha, hb]
  obtain ⟨hmemory, hdirectory⟩ := isExact_afterAll steps
  obtain ⟨store, hopen, hexact⟩ := hdirectory hvacant hsize
  obtain ⟨opened, hopened, hmirrors, _⟩ := hvacant.exists_openAt
  rw [hopen, Except.ok.injEq] at hopened
  obtain ⟨kept, hkept, hkeptExact, hfaithful, _⟩ :=
    hexact (hopened ▸ hmirrors.readsOwnAlong_of_isOrdinary isHome_home
      (MemoryStore.isTidy_empty _) isOrdinary_steps (List.Subset.refl _))
  exact ⟨hmemory.1, store, hopen, kept, hkept, hkeptExact, hfaithful hapart⟩

end NewStore

/-! ### A record from elsewhere -/

namespace ForgedRecord

/-- The record of the file that is uploaded. -/
def uploaded : Attachment := .ofFile "plan.txt" "vpc" ⟨#[97]⟩

/-- A record with the same id that names other contents. -/
def forged : Attachment := { uploaded with digest := ContentDigest.of ⟨#[98]⟩ }

/-- The forged record is beside the folder of the store. -/
def files : FileSystem :=
  ⟨.folder [("srv", .folder [("forged.json", .file (recordText forged))])], []⟩

def steps : List StoreStep :=
  [.request (.put "plan.txt" "vpc" ⟨#[97]⟩), .request (.deleteOne "../../forged")]

theorem isVacant : IsVacant files NewStore.home := by
  have hnone : ∀ path, files.root.kindAt (NewStore.home ++ path) = none := fun path => rfl
  refine ⟨NewStore.isHome_home, ?_, rfl, fun front hfront => ?_, fun path kind hkind => ?_⟩
  · simp [files, FileTree.wellFormed_folder_iff, Entries.Ascending, FileTree.WellFormed,
      FileTree.AllWellFormed]
  · rcases List.prefix_concat_iff.1 (show front <+: ["srv"] ++ ["attachments"] from hfront) with
      rfl | hfront
    · exact .inl (hnone [])
    · refine .inr ?_
      rcases List.prefix_concat_iff.1 (show front <+: [] ++ ["srv"] from hfront) with rfl | hfront
      · rfl
      · rw [List.prefix_nil.1 hfront]
        rfl
  · rw [hnone] at hkind
    cases hkind

theorem digest_ne : forged.digest.toHex ≠ uploaded.digest.toHex := by
  decide +kernel

theorem isWritable_forged : forged.IsWritable :=
  ⟨ContentDigest.length_bytes_of _, by decide⟩

theorem readRecord_forged {store : DirectoryStore} {memory : MemoryStore}
    (h : store.Mirrors NewStore.home memory)
    (hforged : store.files.root.kindAt ["srv", "forged.json"] = some (.file (recordText forged))) :
    store.readRecord "../../forged" = .ok (some forged) := by
  have hpath : store.recordPath "../../forged" =
      "/srv/attachments/records/../../forged.json" := by
    rw [recordPath, h.path]
    decide
  have hsplit : split "/srv/attachments/records/../../forged.json" =
      "" :: (["srv", "attachments", "records"] ++ ["..", "..", "forged.json"]) := by decide
  have hplain : ∀ name ∈ ["srv", "attachments", "records"], IsPlain name :=
    forall_isPlain_concat.2 ⟨NewStore.isHome_home.plain,
      isPlain_folder (show recordFolder ∈ [stagingFolder, blobFolder, recordFolder] by simp)⟩
  have hfolders := @descend_folders store.files.root true [] ["srv", "attachments", "records"]
    ["..", "..", "forged.json"] hplain (by decide) (h.folders recordFolder (by simp))
  have hlast := @descend_last store.files.root true ["srv"] "forged.json"
    ⟨by decide, by decide, by decide, by decide⟩ (by decide) (by
      intro target
      rw [List.singleton_append, hforged]
      simp)
  have hdescend : descend store.files.root true []
      (split "/srv/attachments/records/../../forged.json") =
        .done (.ok ⟨["srv", "forged.json"], some (.file (recordText forged))⟩) := by
    rw [hsplit, descend, if_pos (.inl rfl), hfolders, descend, if_neg (by decide), if_pos rfl,
      descend, if_neg (by decide), if_pos rfl]
    exact hlast.trans (by rw [List.singleton_append, exists_find?_of_kindAt_file hforged])
  have hread : store.files.read (store.recordPath "../../forged") = .ok (recordText forged) := by
    rw [hpath, FileSystem.read, FileSystem.node, FileSystem.locate, if_neg (by decide),
      if_neg (by decide), if_neg (by decide), if_pos (by decide), followFrom_done hdescend]
    rfl
  rw [readRecord_of_read hread, recordOfBytes_recordText isWritable_forged]
  rfl

/-- The store in memory with the file that is uploaded. -/
def memory : MemoryStore := MemoryStore.empty.add uploaded ⟨#[97]⟩

theorem not_contains_uploaded : ¬ MemoryStore.empty.records.contains uploaded.id = true := by
  simp [MemoryStore.empty, SortedMap.contains]

theorem find?_records : memory.records.find? forged.id = some uploaded := by
  rw [memory, MemoryStore.find?_records_add not_contains_uploaded]
  exact if_pos rfl

theorem records_without : (memory.without forged).records = SortedMap.empty := by
  refine SortedMap.ext_find? fun id => ?_
  rw [MemoryStore.without, MemoryStore.records_collectBlob, SortedMap.find?_erase, memory,
    MemoryStore.find?_records_add not_contains_uploaded]
  split
  · rfl
  · rename_i hid
    exact if_neg (Ne.symm hid)

theorem find?_blobs_without :
    (memory.without forged).blobs.find? uploaded.digest.toHex = some ⟨#[97]⟩ := by
  refine MemoryStore.find?_blobs_collectBlob.2 ⟨?_, fun heq => absurd heq digest_ne⟩
  rw [memory, MemoryStore.find?_blobs_add not_contains_uploaded]
  exact if_pos ⟨rfl, rfl⟩

/-- The record of the store is removed, and its contents are left. -/
theorem exists_blob_left :
    ∃ store, openAt files (absolute NewStore.home) = .ok store ∧
      (afterAll store steps).records = .ok [] ∧
      (afterAll store steps).files.read
        ((afterAll store steps).blobPath uploaded.digest) = .ok ⟨#[97]⟩ := by
  have hhome := NewStore.isHome_home
  obtain ⟨store, hopen, hopened, hframe⟩ := isVacant.exists_openAt
  obtain ⟨next, hput, hnext, hsame⟩ :=
    hopened.yields_put hhome (show Attachment.isValidName "plan.txt" = true by decide) "vpc"
      (show (⟨#[97]⟩ : ByteArray).size ≤ Json.maxWord by decide)
  have hforged : next.files.root.kindAt ["srv", "forged.json"] =
      some (.file (recordText forged)) := by
    rw [hsame _ (by decide), hframe _ (by decide) (by decide)]
    rfl
  obtain ⟨final, hdelete, hfinal, _⟩ := hnext.yields_deleteOne hhome
    (readRecord_forged hnext hforged) find?_records ⟨_, isWritable_forged.digest, rfl⟩
  have hafter : afterAll store steps = final := by
    have hfirst : (StoreStep.request (.put "plan.txt" "vpc" ⟨#[97]⟩)).next store = next :=
      congrArg Prod.snd hput
    have hsecond : (StoreStep.request (.deleteOne "../../forged")).next next = final :=
      congrArg Prod.snd hdelete
    rw [afterAll, steps, List.foldl_cons, List.foldl_cons, List.foldl_nil, hfirst, hsecond]
  refine ⟨store, hopen, ?_, ?_⟩
  · rw [hafter, hfinal.records_eq hhome]
    exact congrArg (fun records : SortedMap Attachment => Except.ok records.values)
      records_without
  · have haddress : IsAddress uploaded.digest.toHex := isAddress_of _
    rw [hafter, blobPath_eq hhome hfinal.path haddress]
    exact hfinal.read_of_keeps hhome haddress.isInside (.blob find?_blobs_without)

end ForgedRecord

end DirectoryStore

end InfraGraph
