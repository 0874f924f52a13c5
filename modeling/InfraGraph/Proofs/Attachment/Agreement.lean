import InfraGraph.Proofs.Attachment.Changes
import InfraGraph.Proofs.Attachment.Opening
import InfraGraph.Proofs.Attachment.PlainStore

/-!
# A store in a directory is used like a store in memory

Every request to a directory that mirrors a store in memory is answered as that store answers it,
and leaves the mirror of what the request leaves of that store.
-/

namespace InfraGraph

/-! ### What can be written -/

namespace MemoryStore.IsWritable

open DirectoryStore

variable {memory other : MemoryStore}

theorem mono (h : memory.IsWritable)
    (hrecords : ∀ id record, other.records.find? id = some record →
      memory.records.find? id = some record)
    (hblobs : ∀ key contents, other.blobs.find? key = some contents →
      memory.blobs.find? key = some contents) : other.IsWritable :=
  ⟨fun id record hfind => h.id id record (hrecords id record hfind),
    fun id record hfind => h.record id record (hrecords id record hfind),
    fun key contents hfind => h.blob key contents (hblobs key contents hfind)⟩

theorem insert_blob (h : memory.IsWritable) {key : String} (hkey : IsAddress key)
    (contents : ByteArray) :
    IsWritable { memory with blobs := memory.blobs.insert key contents } := by
  refine ⟨h.id, h.record, fun other old hfind => ?_⟩
  rw [SortedMap.find?_insert] at hfind
  split at hfind
  · rename_i hsame
    exact hsame ▸ hkey
  · exact h.blob other old hfind

theorem insert_record (h : memory.IsWritable) {record : Attachment} (hid : IsAddress record.id)
    (hrecord : record.IsWritable) :
    IsWritable { memory with records := memory.records.insert record.id record } := by
  refine ⟨fun id found hfind => ?_, fun id found hfind => ?_, h.blob⟩
  · rw [SortedMap.find?_insert] at hfind
    split at hfind
    · rename_i hsame
      rw [← Option.some.inj hfind, ← hsame]
      exact ⟨rfl, hid⟩
    · exact h.id id found hfind
  · rw [SortedMap.find?_insert] at hfind
    split at hfind
    · exact Option.some.inj hfind ▸ hrecord
    · exact h.record id found hfind

end MemoryStore.IsWritable

namespace DirectoryStore

open InfraGraph.Path FileSystem

section Operations

variable {home : List String} {store : DirectoryStore} {memory : MemoryStore}
  {uploads : List Upload}

/-! ### Uploading -/

theorem Mirrors.yields_writeBlob (h : store.Mirrors home memory) (hhome : IsHome home)
    (contents : ByteArray) (hnone : memory.blobs.find? (ContentDigest.of contents).toHex = none) :
    Yields home store
      (writeStaged (fun store => store.blobPath (ContentDigest.of contents)) contents) (.ok ())
      { memory with blobs := memory.blobs.insert (ContentDigest.of contents).toHex contents } := by
  have haddress := isAddress_of contents
  refine @yields_writeStaged home
    [blobFolder, shardOf (ContentDigest.of contents).toHex] (ContentDigest.of contents).toHex store
    memory _ contents h hhome _ (fun store hstore => blobPath_eq hhome hstore haddress)
    haddress.isInside (isFilePath_blob _ _) (fun old hkeeps => ?_)
    (h.writable.insert_blob haddress contents) fun path new => keeps_insert_blob hnone
  rw [keeps_blob_iff.1 hkeeps] at hnone
  cases hnone

theorem Mirrors.yields_writeRecord (h : store.Mirrors home memory) (hhome : IsHome home)
    {record : Attachment} (hid : IsAddress record.id) (hrecord : record.IsWritable)
    (hnone : memory.records.find? record.id = none) :
    Yields home store (writeStaged (fun store => store.recordPath record.id) (recordText record))
      (.ok ()) { memory with records := memory.records.insert record.id record } := by
  refine @yields_writeStaged home [recordFolder] (record.id ++ ".json") store memory _
    (recordText record) h hhome _
    (fun store hstore => recordPath_eq hhome hstore hid.isLookup.no_slash)
    hid.isLookup.isInside (isFilePath_record _) (fun old hkeeps => ?_)
    (h.writable.insert_record hid hrecord) fun path new => keeps_insert_record hnone
  obtain ⟨found, hfound, _⟩ := keeps_record_iff.1 hkeeps
  rw [hnone] at hfound
  cases hfound

theorem Mirrors.exists?_blob (h : store.Mirrors home memory) (hhome : IsHome home)
    {digest : ContentDigest} (hdigest : IsAddress digest.toHex) :
    store.files.exists? (store.blobPath digest) = .ok (memory.blobs.contains digest.toHex) := by
  rw [blobPath_eq hhome h.path hdigest, SortedMap.contains]
  cases hblob : memory.blobs.find? digest.toHex with
  | some contents => exact h.exists?_of_keeps hhome hdigest.isInside (.blob hblob)
  | none =>
      refine h.exists?_of_not_keeps hhome hdigest.isInside (isFilePath_blob _ _) fun contents => ?_
      simp [keeps_blob_iff, hblob]

theorem Mirrors.yields_put (h : store.Mirrors home memory) (hhome : IsHome home)
    {name : String} (hname : Attachment.isValidName name = true) (nodeId : String)
    {contents : ByteArray} (hsize : contents.size ≤ Json.maxWord) :
    Yields home store (put name nodeId contents)
      (.ok (Attachment.ofFile name nodeId contents).id)
      (memory.add (Attachment.ofFile name nodeId contents) contents) := by
  have hcheck : Attachment.checkName name = .ok () := by simp [Attachment.checkName, hname]
  obtain ⟨record, hrecord⟩ : ∃ record, record = Attachment.ofFile name nodeId contents := ⟨_, rfl⟩
  have hid : IsAddress record.id := hrecord ▸ isAddress_of _
  have hdigest : record.digest = ContentDigest.of contents := hrecord ▸ rfl
  have hwritable : record.IsWritable := hrecord ▸ Attachment.isWritable_ofFile hsize
  have haddress : IsAddress record.digest.toHex := hdigest ▸ isAddress_of contents
  unfold put
  rw [hcheck, ← hrecord]
  refine (h.yields_pure ()).bind fun store h => ?_
  refine (h.yields_look (h.readRecord_eq hhome hid.isLookup)).bind fun store h => ?_
  cases hfound : memory.records.find? record.id with
  | some found =>
      have hcontains : memory.records.contains record.id = true := by
        rw [SortedMap.contains, hfound]
        rfl
      rw [MemoryStore.add_of_contains hcontains]
      exact h.yields_pure record.id
  | none =>
      have hcontains : ¬ memory.records.contains record.id = true := by
        simp [SortedMap.contains, hfound]
      have hexists :
          ((store.files.exists? (store.blobPath record.digest)).mapError StoreError.file) =
            .ok (memory.blobs.contains record.digest.toHex) := by
        rw [h.exists?_blob hhome haddress]
        rfl
      simp only [Option.isSome_none, Bool.false_eq_true, if_false]
      refine (h.yields_look hexists).bind fun store h => ?_
      rw [MemoryStore.add, if_neg hcontains]
      cases hblob : memory.blobs.contains record.digest.toHex with
      | true =>
          simp only [hblob, if_true]
          exact (h.yields_writeRecord hhome hid hwritable hfound).bind fun store h =>
            h.yields_pure record.id
      | false =>
          have hnone : memory.blobs.find? (ContentDigest.of contents).toHex = none := by
            simpa [SortedMap.contains, hdigest] using hblob
          simp only [hblob, Bool.false_eq_true, if_false]
          rw [hdigest]
          refine (h.yields_writeBlob hhome contents hnone).bind fun store h => ?_
          exact (h.yields_writeRecord hhome hid hwritable hfound).bind fun store h =>
            h.yields_pure record.id

theorem Mirrors.yields_put_invalid (h : store.Mirrors home memory) {name : String}
    (hname : ¬ Attachment.isValidName name = true) (nodeId : String) (contents : ByteArray) :
    Yields home store (put name nodeId contents) (.error (.invalidName name)) memory := by
  have hcheck : Attachment.checkName name = .error (.invalidName name) := by
    simp [Attachment.checkName, hname]
  unfold put
  rw [hcheck]
  exact Yields.bind_error ⟨store, rfl, h, fun _ _ => rfl⟩

/-! ### Removing -/

theorem Mirrors.yields_collectBlob (h : store.Mirrors home memory) (hhome : IsHome home)
    {digest : ContentDigest} (hdigest : IsAddress digest.toHex) :
    Yields home store (collectBlob digest) (.ok ()) (memory.collectBlob digest) := by
  unfold collectBlob MemoryStore.collectBlob
  refine (h.yields_look (h.records_eq hhome)).bind fun store h => ?_
  by_cases hneeded : (memory.records.values.any fun record => record.digest = digest) = true
  · rw [if_pos hneeded, if_pos hneeded]
    exact h.yields_pure ()
  · rw [if_neg hneeded, if_neg hneeded]
    have hpath := blobPath_eq hhome h.path hdigest
    cases hblob : memory.blobs.find? digest.toHex with
    | some contents =>
        have hremove : store.files.removeFile (store.blobPath digest) = .ok (store.files.remove
            (home ++ [blobFolder, shardOf digest.toHex, digest.toHex])) := by
          rw [hpath]
          exact removeFile_file (hhome.plain_append hdigest.isInside)
            (hhome.fits_append hdigest.isInside) (h.kept _ _ (.blob hblob))
        refine ⟨_, StoreM.runIn_changeOrFail (by rw [hremove]), h.removeFile (.blob hblob)
          (h.writable.mono (fun _ _ => id) fun _ _ => SortedMap.find?_of_find?_erase)
          fun rest new => keeps_erase_blob, sameOutside_remove (List.cons_ne_nil _ _)⟩
    | none =>
        have hnone : ∀ contents, ¬ Keeps memory
            [blobFolder, shardOf digest.toHex, digest.toHex] contents := by
          intro contents
          rw [keeps_blob_iff, hblob]
          exact nofun
        have hremove : store.files.removeFile (store.blobPath digest) = .error .notFound := by
          rw [hpath]
          exact h.removeFile_of_not_keeps hhome hdigest.isInside (isFilePath_blob _ _) hnone
        have hsame : memory.blobs.erase digest.toHex = memory.blobs := by
          refine SortedMap.ext_find? fun key => ?_
          rw [SortedMap.find?_erase]
          split
          · rename_i hkey
            rw [hkey, hblob]
          · rfl
        rw [hsame]
        exact ⟨store, StoreM.runIn_changeOrFail (by rw [hremove]), h, fun _ _ => rfl⟩

theorem Mirrors.yields_removeRecord (h : store.Mirrors home memory) (hhome : IsHome home)
    {record found : Attachment} (hfound : memory.records.find? record.id = some found)
    (hdigest : IsAddress record.digest.toHex) :
    Yields home store (removeRecord record) (.ok ()) (memory.without record) := by
  have hid := (h.writable.id _ _ hfound).2.isLookup
  have hremove : store.files.removeFile (store.recordPath record.id) =
      .ok (store.files.remove (home ++ [recordFolder, record.id ++ ".json"])) := by
    rw [recordPath_eq hhome h.path hid.no_slash]
    exact removeFile_file (hhome.plain_append hid.isInside) (hhome.fits_append hid.isInside)
      (h.kept _ _ (.record hfound))
  have hremoved : Mirrors
      { store with files := store.files.remove (home ++ [recordFolder, record.id ++ ".json"]) } home
      { memory with records := memory.records.erase record.id } :=
    h.removeFile (.record hfound)
      (h.writable.mono (fun _ _ => SortedMap.find?_of_find?_erase) fun _ _ => id)
      fun rest new => keeps_erase_record
  have hrun := @runIn_act store (fun store => store.files.removeFile (store.recordPath record.id))
    _ hremove
  exact Yields.bind ⟨_, hrun, hremoved, sameOutside_remove (List.cons_ne_nil _ _)⟩
    fun store h' => h'.yields_collectBlob hhome hdigest

/-- Whatever record is read for an id, the one that is removed has the id in it. -/
theorem Mirrors.yields_deleteOne (h : store.Mirrors home memory) (hhome : IsHome home)
    {id : String} {record found : Attachment} (hread : store.readRecord id = .ok (some record))
    (hfound : memory.records.find? record.id = some found)
    (hdigest : IsAddress record.digest.toHex) :
    Yields home store (deleteOne id) (.ok ()) (memory.without record) := by
  refine (h.yields_look hread).bind fun store h => ?_
  exact h.yields_removeRecord hhome hfound hdigest

theorem Mirrors.yields_deleteOne_unknown (h : store.Mirrors home memory) {id : String}
    (hread : store.readRecord id = .ok none) :
    Yields home store (deleteOne id) (.error (.unknownAttachment id)) memory := by
  refine (h.yields_look hread).bind fun next h => ?_
  exact ⟨next, rfl, h, fun _ _ => rfl⟩

theorem Mirrors.yields_deleteOne_error (h : store.Mirrors home memory) {id : String}
    {e : StoreError} (hread : store.readRecord id = .error e) :
    Yields home store (deleteOne id) (.error e) memory :=
  Yields.bind_error (h.yields_look hread)

theorem Mirrors.yields_removeRecords (hhome : IsHome home) {removed : List Attachment}
    (h : store.Mirrors home memory)
    (hremoved : ∀ record ∈ removed, memory.records.find? record.id = some record)
    (hnodup : (removed.map (·.id)).Nodup) :
    Yields home store (removed.forM removeRecord) (.ok ())
      (removed.foldl MemoryStore.without memory) := by
  induction removed generalizing store memory with
  | nil => exact h.yields_pure ()
  | cons record removed ih =>
      rw [List.forall_mem_cons] at hremoved
      rw [List.map_cons, List.nodup_cons] at hnodup
      refine (h.yields_removeRecord hhome hremoved.1
        (h.writable.isAddress_digest hremoved.1)).bind fun store h => ?_
      refine ih h (fun other hother => ?_) hnodup.2
      have hid : other.id ≠ record.id := fun hid =>
        hnodup.1 (hid ▸ List.mem_map.2 ⟨other, hother, rfl⟩)
      rw [MemoryStore.without, MemoryStore.records_collectBlob, SortedMap.find?_erase, if_neg hid]
      exact hremoved.2 other hother

/-- The records of a node are removed one after the other. -/
theorem Mirrors.yields_deleteOfNode_foldl (h : store.Mirrors home memory) (hhome : IsHome home)
    (nodeId : String) :
    Yields home store (deleteOfNode nodeId) (.ok ())
      ((memory.records.values.filter fun record => record.nodeId = nodeId).foldl
        MemoryStore.without memory) := by
  have hself : ∀ id record, memory.records.find? id = some record → record.id = id :=
    fun id record hfind => (h.writable.id id record hfind).1
  have hnodup : (memory.records.values.map (·.id)).Nodup :=
    map_id_values hself ▸ memory.records.keys_nodup
  refine (h.yields_look (h.records_eq hhome)).bind fun store h => ?_
  refine h.yields_removeRecords hhome (fun record hrecord => ?_)
    (hnodup.sublist (List.filter_sublist.map _))
  exact (mem_values_iff_find?_id hself).1 (List.mem_of_mem_filter hrecord)

theorem Mirrors.yields_deleteOfNode (h : store.Mirrors home memory) (hhome : IsHome home)
    (htidy : memory.IsTidy uploads) (nodeId : String) :
    Yields home store (deleteOfNode nodeId) (.ok ()) (memory.deleteOfNode nodeId) := by
  rw [← htidy.foldl_without_eq_deleteOfNode]
  exact h.yields_deleteOfNode_foldl hhome nodeId

theorem Mirrors.yields_deleteAll (h : store.Mirrors home memory) (hhome : IsHome home) :
    Yields home store (AttachmentStore.deleteAll : StoreM DirectoryStore Unit) (.ok ())
      MemoryStore.empty := by
  have hblobs : MemoryStore.IsWritable { memory with blobs := .empty } :=
    h.writable.mono (fun _ _ => id) fun _ _ => nofun
  have hrecords : MemoryStore.empty.IsWritable := ⟨nofun, nofun, nofun⟩
  have hfirst : Yields home store (emptyFolder blobFolder) (.ok ())
      { memory with blobs := .empty } :=
    h.yields_emptyFolder hhome (by simp) hblobs fun rest new => keeps_empty_blobs
  exact hfirst.bind fun next hnext =>
    hnext.yields_emptyFolder hhome (by simp) hrecords fun rest new =>
      @keeps_empty_records { memory with blobs := .empty } new rest

theorem Mirrors.yields_reopen (h : store.Mirrors home memory) (hhome : IsHome home) :
    Yields home store (ReopenableStore.reopen : StoreM DirectoryStore Unit) (.ok ()) memory := by
  refine ⟨store, StoreM.runIn_changeOrFail ?_, h, fun _ _ => rfl⟩
  rw [h.openAt_eq hhome]
  rfl

/-! ### All requests -/

end Operations

/-- What is looked up stays in the folder of records, and what is uploaded has a size that can be
written. -/
def IsOrdinary : StoreStep → Prop
  | .request (.put _ _ contents) => contents.size ≤ Json.maxWord
  | .request (.stat id) => IsLookup id
  | .request (.get id) => IsLookup id
  | .request (.deleteOne id) => IsLookup id
  | _ => True

section Steps

variable {home : List String} {store : DirectoryStore} {memory : MemoryStore}
  {uploads : List Upload}

theorem Yields.answer {α : Type} {operation : StoreM DirectoryStore α}
    {answer : Except StoreError α} (h : Yields home store operation answer memory) :
    (StoreM.runIn store operation).1 = answer ∧
      (StoreM.runIn store operation).2.Mirrors home memory := by
  obtain ⟨next, hrun, hnext, _⟩ := h
  rw [hrun]
  exact ⟨rfl, hnext⟩

theorem Mirrors.agree_put (h : store.Mirrors home memory) (hhome : IsHome home)
    (name nodeId : String) {contents : ByteArray}
    (hsize : Attachment.isValidName name = true → contents.size ≤ Json.maxWord) :
    Yields home store (AttachmentStore.put name nodeId contents)
      (StoreM.runIn memory (AttachmentStore.put name nodeId contents)).1
      (StoreM.runIn memory (AttachmentStore.put name nodeId contents)).2 := by
  rw [MemoryStore.runIn_put]
  by_cases hname : Attachment.isValidName name = true
  · rw [if_pos hname]
    exact h.yields_put hhome hname nodeId (hsize hname)
  · rw [if_neg hname]
    exact h.yields_put_invalid hname nodeId contents

theorem Mirrors.agree_deleteOne (h : store.Mirrors home memory) (hhome : IsHome home)
    (htidy : memory.IsTidy uploads) {id : String} (hid : IsLookup id) :
    Yields home store (AttachmentStore.deleteOne id)
      (StoreM.runIn memory (AttachmentStore.deleteOne id)).1
      (StoreM.runIn memory (AttachmentStore.deleteOne id)).2 := by
  have hread := h.readRecord_eq hhome hid
  cases hrecord : memory.records.find? id with
  | none =>
      rw [hrecord] at hread
      rw [MemoryStore.runIn_deleteOne_unknown hrecord]
      exact h.yields_deleteOne_unknown hread
  | some record =>
      rw [hrecord] at hread
      have hself := (htidy.records id record hrecord).1
      rw [htidy.runIn_deleteOne hrecord]
      exact h.yields_deleteOne hhome hread (hself.symm ▸ hrecord)
        (h.writable.isAddress_digest hrecord)

/-- A mirror answers a step as the store in memory does, and is a mirror again. -/
theorem Mirrors.agree (h : store.Mirrors home memory) (hhome : IsHome home)
    (htidy : memory.IsTidy uploads) {step : StoreStep} (hstep : IsOrdinary step) :
    step.answer store = step.answer memory ∧
      (step.next store).Mirrors home (step.next memory) := by
  cases step with
  | reopen =>
      obtain ⟨hanswer, hnext⟩ := (h.yields_reopen hhome).answer
      exact ⟨congrArg (Except.map fun _ => StoreAnswer.done) hanswer, hnext⟩
  | request request =>
      cases request with
      | put name nodeId contents =>
          obtain ⟨hanswer, hnext⟩ := (h.agree_put hhome name nodeId fun _ => hstep).answer
          exact ⟨congrArg (Except.map StoreAnswer.id) hanswer, hnext⟩
      | stat id =>
          exact ⟨congrArg (Except.map StoreAnswer.record) (h.readRecord_eq hhome hstep), h⟩
      | get id => exact ⟨congrArg (Except.map StoreAnswer.contents) (h.get_eq hhome hstep), h⟩
      | list => exact ⟨congrArg (Except.map StoreAnswer.records) (h.records_eq hhome), h⟩
      | deleteAll =>
          obtain ⟨hanswer, hnext⟩ := (h.yields_deleteAll hhome).answer
          exact ⟨congrArg (Except.map fun _ => StoreAnswer.done) hanswer, hnext⟩
      | deleteOne id =>
          obtain ⟨hanswer, hnext⟩ := (h.agree_deleteOne hhome htidy hstep).answer
          exact ⟨congrArg (Except.map fun _ => StoreAnswer.done) hanswer, hnext⟩
      | deleteOfNode nodeId =>
          obtain ⟨hanswer, hnext⟩ := (h.yields_deleteOfNode hhome htidy nodeId).answer
          exact ⟨congrArg (Except.map fun _ => StoreAnswer.done) hanswer, hnext⟩

/-- Opened in a directory in which there is room, a store answers every sequence of steps as a store
in memory does, and without collisions of digests both are sets of files. -/
theorem exists_openAt_answers_eq {files : FileSystem} (hvacant : IsVacant files home)
    {steps : List StoreStep} (hsteps : ∀ step ∈ steps, IsOrdinary step) :
    ∃ store, openAt files (absolute home) = .ok store ∧
      answers store steps = answers MemoryStore.empty steps ∧
      (NoCollision (uploadsOf steps) → answers store steps = answers PlainStore.empty steps) := by
  obtain ⟨store, hopen, hmirrors, _⟩ := hvacant.exists_openAt
  have hsame : answers store steps = answers MemoryStore.empty steps := by
    refine @answers_eq_of_alike _ _ _ _
      (fun store memory => store.Mirrors home memory ∧ memory.IsTidy (uploadsOf steps))
      (fun step => IsOrdinary step ∧ step.upload?.toList ⊆ uploadsOf steps)
      (fun store memory step halike hallowed => ?_) store MemoryStore.empty
      ⟨hmirrors, MemoryStore.isTidy_empty _⟩ steps fun step hstep =>
        ⟨hsteps step hstep, toList_upload?_subset hstep⟩
    obtain ⟨hanswer, hnext⟩ := halike.1.agree hvacant.isHome halike.2 hallowed.1
    exact ⟨hanswer, hnext, halike.2.next step hallowed.2⟩
  exact ⟨store, hopen, hsame, fun h => hsame.trans (PlainStore.answers_empty_eq h)⟩

end Steps

/-! ### A new store -/

namespace NewStore

def home : List String := ["srv", "attachments"]

theorem isHome_home : IsHome home :=
  ⟨by decide, by decide, by decide⟩

/-- A file is uploaded, looked for and removed. -/
def steps : List StoreStep :=
  [.request (.put "plan.txt" "vpc" ⟨#[118]⟩), .reopen, .request (.put "a/b" "vpc" ⟨#[118]⟩),
    .request .list, .request (.get "vpc"), .request (.deleteOne "vpc"),
    .request (.deleteOfNode "vpc"), .request .deleteAll]

theorem uploadsOf_steps : uploadsOf steps = [⟨"vpc", "plan.txt", ⟨#[118]⟩⟩] := by
  decide

theorem isOrdinary_steps : ∀ step ∈ steps, IsOrdinary step := by
  have hlookup : IsLookup "vpc" := ⟨by decide, by decide, by decide⟩
  have hsize : (⟨#[118]⟩ : ByteArray).size ≤ Json.maxWord := by decide
  simp [steps, IsOrdinary, hlookup, hsize]

theorem exists_openAt_answers_steps_eq :
    ∃ store, openAt ⟨.folder [], []⟩ (absolute home) = .ok store ∧
      answers store steps = answers MemoryStore.empty steps ∧
      answers store steps = answers PlainStore.empty steps := by
  obtain ⟨store, hopen, hmemory, hplain⟩ :=
    exists_openAt_answers_eq (isVacant_of_bareRoot isHome_home []) isOrdinary_steps
  refine ⟨store, hopen, hmemory, hplain ⟨fun a ha b hb _ => ?_, fun a ha b hb _ => ?_⟩⟩
  · rw [uploadsOf_steps, List.mem_singleton] at ha hb
    rw [ha, hb]
  · rw [uploadsOf_steps, List.mem_singleton] at ha hb
    rw [ha, hb]

end NewStore

end DirectoryStore

end InfraGraph
