import InfraGraph.Proofs.Attachment.Exact

/-!
# Ids without a slash lead to their own records

An id is taken as a path below the folder of records.  Whatever is done to a store in a directory,
with ids of all kinds, the files below its folder are those of some records and contents.  So an id
without a slash leads to the record that has it, or to none.  An id with slashes may lead to the
record of another id.
-/

namespace InfraGraph

/-- An id stands for itself: what is looked up under it has it, and what is removed under it are the
records that have it. -/
structure LooksUpExactly {σ : Type} [AttachmentStore σ] (s : σ) (id : String) : Prop where
  stat : ∀ record, (StoreRequest.stat id).answer s = .ok (.record (some record)) → record.id = id
  get : ∀ contents, (StoreRequest.get id).answer s = .ok (.contents (some contents)) →
    ∃ records, StoreRequest.list.answer s = .ok (.records records) ∧
      ∃ record ∈ records, record.id = id
  deleteOne : (StoreRequest.deleteOne id).answer s = .ok .done →
    ∃ records, StoreRequest.list.answer s = .ok (.records records) ∧
      (∃ record ∈ records, record.id = id) ∧
      StoreRequest.list.answer ((StoreRequest.deleteOne id).perform s) =
        .ok (.records (records.filter fun record => record.id ≠ id))

/-! ### Stores in memory -/

section Memory

variable {memory : MemoryStore} {id : String}

theorem MemoryStore.looksUpExactly
    (h : ∀ id record, memory.records.find? id = some record → record.id = id) (id : String) :
    LooksUpExactly memory id := by
  have hlisted : ∀ record, memory.records.find? id = some record →
      ∃ record ∈ memory.records.values, record.id = id := fun record hfind =>
    ⟨record, SortedMap.mem_values_iff.2 ⟨id, hfind⟩, h id record hfind⟩
  refine ⟨fun record hstat => ?_, fun contents hget => ?_, fun hdelete => ?_⟩
  · exact h id record (StoreAnswer.record.inj (Except.ok.inj hstat))
  · obtain ⟨found, hget, hfound⟩ := map_eq_ok_iff.1 hget
    obtain rfl := StoreAnswer.contents.inj hfound
    change memory.get id = .ok (some contents) at hget
    rw [MemoryStore.get] at hget
    cases hfind : memory.records.find? id with
    | none =>
        rw [hfind] at hget
        cases hget
    | some record => exact ⟨_, rfl, hlisted record hfind⟩
  · obtain ⟨_, hdelete, _⟩ := map_eq_ok_iff.1 hdelete
    cases hfind : memory.records.find? id with
    | none =>
        rw [runIn_deleteOne_unknown hfind] at hdelete
        cases hdelete
    | some record =>
        have hrun : StoreM.runIn memory (AttachmentStore.deleteOne id) =
            (.ok (), collectBlob { memory with records := memory.records.erase id }
              record.digest) :=
          StoreM.runIn_changeOrFail (by rw [deleteOne, hfind])
        refine ⟨_, rfl, hlisted record hfind, ?_⟩
        rw [StoreRequest.perform, hrun]
        refine congrArg (fun records => Except.ok (StoreAnswer.records records)) ?_
        rw [records_collectBlob, values_erase h]

/-- In memory every id stands for itself after every sequence of steps. -/
theorem MemoryStore.looksUpExactly_of_steps (steps : List StoreStep) (id : String) :
    LooksUpExactly (afterAll MemoryStore.empty steps) id :=
  looksUpExactly (fun id record hfind =>
    ((isTidy_afterAll steps).records id record hfind).1) id

end Memory

namespace DirectoryStore

open InfraGraph.Path FileSystem

section Steps

variable {home : List String} {store : DirectoryStore} {memory : MemoryStore}

/-! ### Every step leaves a mirror -/

theorem Mirrors.of_kindAt_eq (h : store.Mirrors home memory) {files : FileSystem}
    (hwell : files.root.WellFormed)
    (hkind : ∀ path, files.root.kindAt (home ++ path) = store.files.root.kindAt (home ++ path)) :
    Mirrors { store with files := files } home memory :=
  ⟨h.path, hwell, h.writable, fun path _ hkeeps => (hkind path).trans (h.kept path _ hkeeps),
    fun path kind hfound => h.holds path kind ((hkind path).symm.trans hfound),
    fun name hname => (hkind [name]).trans (h.folders name hname)⟩

/-- Wherever a file is removed, what is left of the store is a mirror. -/
theorem Mirrors.exists_of_removeFile (h : store.Mirrors home memory) {path : String}
    {files : FileSystem} (hremove : store.files.removeFile path = .ok files) :
    ∃ kept : MemoryStore, Mirrors { store with files := files } home kept := by
  obtain ⟨names, kind, hkind, hfolder, rfl⟩ := FileSystem.exists_of_removeFile hremove
  have hnofolder : store.files.root.kindAt names ≠ some .folder := by
    rw [hkind]
    exact fun heq => hfolder (Option.some.inj heq)
  by_cases hstart : home <+: names
  · obtain ⟨rest, rfl⟩ := hstart
    cases kind with
    | folder => exact absurd rfl hfolder
    | link target => exact absurd hkind (h.link target)
    | file contents =>
        cases h.file.1 hkind with
        | @record key record hfind =>
            exact ⟨{ memory with records := memory.records.erase key }, h.removeFile (.record hfind)
              (h.writable.mono (fun _ _ => SortedMap.find?_of_find?_erase) fun _ _ => id)
              fun rest new => keeps_erase_record⟩
        | @blob key contents hfind =>
            exact ⟨{ memory with blobs := memory.blobs.erase key }, h.removeFile (.blob hfind)
              (h.writable.mono (fun _ _ => id) fun _ _ => SortedMap.find?_of_find?_erase)
              fun rest new => keeps_erase_blob⟩
  · -- Nothing but folders is on the way to the store, so the file isn't on it.
    have hne : names ≠ [] := fun hnil => hnofolder (hnil ▸ h.kindAt_root)
    have hbeside : ∀ rest, ¬ names <+: home ++ rest :=
      fun rest hnames => hnofolder (h.kindAt_of_prefix hnames hstart)
    refine ⟨memory, h.of_kindAt_eq (h.wellFormed.erase names) fun rest => ?_⟩
    exact (FileTree.kindAt_erase hne _ _).trans (if_neg (hbeside rest))

theorem Mirrors.exists_of_removeRecord (h : store.Mirrors home memory) (hhome : IsHome home)
    {record : Attachment} (hdigest : IsAddress record.digest.toHex) :
    ∃ kept : MemoryStore, (StoreM.runIn store (removeRecord record)).2.Mirrors home kept := by
  rw [removeRecord, StoreM.runIn_bind]
  cases hremove : store.files.removeFile (store.recordPath record.id) with
  | error e =>
      have hrun : StoreM.runIn store (act fun store =>
          store.files.removeFile (store.recordPath record.id)) = (.error (.file e), store) :=
        StoreM.runIn_changeOrFail_error (by simp only [hremove])
      rw [hrun]
      exact ⟨memory, h⟩
  | ok files =>
      obtain ⟨kept, hkept⟩ := h.exists_of_removeFile hremove
      rw [runIn_act _ hremove]
      exact ⟨_, (hkept.yields_collectBlob hhome hdigest).answer.2⟩

/-- Whatever record is read for an id, a mirror is left when it is removed. -/
theorem Mirrors.exists_of_deleteOne (h : store.Mirrors home memory) (hhome : IsHome home)
    (id : String) :
    ∃ kept : MemoryStore, (StoreM.runIn store (deleteOne id)).2.Mirrors home kept := by
  cases hread : store.readRecord id with
  | error e => exact ⟨memory, (h.yields_deleteOne_error hread).answer.2⟩
  | ok found =>
      cases found with
      | none => exact ⟨memory, (h.yields_deleteOne_unknown hread).answer.2⟩
      | some record =>
          have hlook : StoreM.runIn store (StoreM.look fun store => store.readRecord id) =
              (.ok (some record), store) := by
            rw [← hread]
            rfl
          rw [deleteOne, StoreM.runIn_bind, hlook]
          exact h.exists_of_removeRecord hhome ⟨_, length_digest_of_readRecord hread, rfl⟩

theorem Mirrors.exists_mirrors_next (h : store.Mirrors home memory) (hhome : IsHome home)
    {step : StoreStep} (hsize : ∀ u ∈ step.upload?, u.contents.size ≤ Json.maxWord) :
    ∃ kept : MemoryStore, (step.next store).Mirrors home kept := by
  cases step with
  | reopen => exact ⟨_, (h.yields_reopen hhome).answer.2⟩
  | request request =>
      cases request with
      | put name nodeId contents =>
          refine ⟨_, (h.agree_put hhome name nodeId fun hname => ?_).answer.2⟩
          exact hsize ⟨nodeId, name, contents⟩ (by simp [StoreStep.upload?, hname])
      | stat id => exact ⟨memory, h⟩
      | get id => exact ⟨memory, h⟩
      | list => exact ⟨memory, h⟩
      | deleteAll => exact ⟨_, (h.yields_deleteAll hhome).answer.2⟩
      | deleteOne id => exact h.exists_of_deleteOne hhome id
      | deleteOfNode nodeId => exact ⟨_, (h.yields_deleteOfNode_foldl hhome nodeId).answer.2⟩

theorem Mirrors.exists_mirrors_afterAll (hhome : IsHome home) {steps : List StoreStep}
    (h : store.Mirrors home memory)
    (hsize : ∀ u ∈ uploadsOf steps, u.contents.size ≤ Json.maxWord) :
    ∃ kept : MemoryStore, (afterAll store steps).Mirrors home kept := by
  induction steps generalizing store memory with
  | nil => exact ⟨memory, h⟩
  | cons step rest ih =>
      obtain ⟨hfirst, hrest⟩ := uploadsOf_cons_subset (List.Subset.refl (uploadsOf (step :: rest)))
      obtain ⟨middle, hmiddle⟩ := h.exists_mirrors_next hhome fun u hu =>
        hsize u (hfirst (Option.mem_toList.2 hu))
      exact ih hmiddle fun u hu => hsize u (hrest hu)

end Steps

/-! ### What ids lead to -/

section Lookup

variable {home : List String} {store : DirectoryStore} {memory : MemoryStore} {id : String}
  {records : List Attachment}

theorem Mirrors.find?_of_readRecord (h : store.Mirrors home memory) (hhome : IsHome home)
    (hid : '/' ∉ id.toList) {record : Attachment}
    (hread : store.readRecord id = .ok (some record)) : memory.records.find? id = some record := by
  rcases h.readRecord_eq_or_error hhome hid with hfound | ⟨e, he⟩
  · rw [hfound] at hread
    exact Except.ok.inj hread
  · rw [he] at hread
    cases hread

/-- Under an id without a slash only its own record is removed. -/
theorem Mirrors.exists_of_deleteOne_ok (h : store.Mirrors home memory) (hhome : IsHome home)
    (hid : '/' ∉ id.toList) (hdelete : (StoreM.runIn store (deleteOne id)).1 = .ok ()) :
    ∃ record, memory.records.find? id = some record ∧
      (StoreM.runIn store (deleteOne id)).2.records =
        .ok (memory.records.values.filter fun record => record.id ≠ id) := by
  cases hread : store.readRecord id with
  | error e =>
      rw [(h.yields_deleteOne_error hread).answer.1] at hdelete
      cases hdelete
  | ok read =>
      cases read with
      | none =>
          rw [(h.yields_deleteOne_unknown hread).answer.1] at hdelete
          cases hdelete
      | some record =>
          have hfind := h.find?_of_readRecord hhome hid hread
          obtain rfl := (h.writable.id id record hfind).1
          have hnext := (h.yields_deleteOne hhome hread hfind
            (h.writable.isAddress_digest hfind)).answer.2
          refine ⟨record, hfind, ?_⟩
          rw [hnext.records_eq hhome, MemoryStore.without, MemoryStore.records_collectBlob,
            values_erase fun id record hfind => (h.writable.id id record hfind).1]

theorem answer_list (hrecords : store.records = .ok records) :
    StoreRequest.list.answer store = .ok (.records records) :=
  congrArg (Except.map StoreAnswer.records) hrecords

theorem Mirrors.looksUpExactly (h : store.Mirrors home memory) (hhome : IsHome home)
    (hid : '/' ∉ id.toList) : LooksUpExactly store id := by
  have hlist := answer_list (h.records_eq hhome)
  have hlisted : ∀ record, memory.records.find? id = some record →
      ∃ record ∈ memory.records.values, record.id = id := fun record hfind =>
    ⟨record, SortedMap.mem_values_iff.2 ⟨id, hfind⟩, (h.writable.id id record hfind).1⟩
  refine ⟨fun record hstat => ?_, fun contents hget => ?_, fun hdelete => ?_⟩
  · obtain ⟨found, hread, hfound⟩ := map_eq_ok_iff.1 hstat
    obtain rfl := StoreAnswer.record.inj hfound
    exact (h.writable.id id record (h.find?_of_readRecord hhome hid hread)).1
  · obtain ⟨found, hget, hfound⟩ := map_eq_ok_iff.1 hget
    obtain rfl := StoreAnswer.contents.inj hfound
    obtain ⟨read, hread, hcontents⟩ := bind_eq_ok_iff.1 hget
    cases read with
    | none => cases hcontents
    | some record => exact ⟨_, hlist, hlisted record (h.find?_of_readRecord hhome hid hread)⟩
  · obtain ⟨_, hdelete, _⟩ := map_eq_ok_iff.1 hdelete
    obtain ⟨record, hfind, hrecords⟩ := h.exists_of_deleteOne_ok hhome hid hdelete
    exact ⟨_, hlist, hlisted record hfind, answer_list hrecords⟩

/-- After every sequence of steps, an id without a slash stands for itself. -/
theorem looksUpExactly_afterAll {files : FileSystem} (hvacant : IsVacant files home)
    {steps : List StoreStep} (hsize : ∀ u ∈ uploadsOf steps, u.contents.size ≤ Json.maxWord) :
    ∃ store, openAt files (absolute home) = .ok store ∧
      ∀ id : String, '/' ∉ id.toList → LooksUpExactly (afterAll store steps) id := by
  obtain ⟨store, hopen, hmirrors, _⟩ := hvacant.exists_openAt
  obtain ⟨kept, hkept⟩ := hmirrors.exists_mirrors_afterAll hvacant.isHome hsize
  exact ⟨store, hopen, fun id hid => hkept.looksUpExactly hvacant.isHome hid⟩

end Lookup

namespace OneUpload

/-- A file is uploaded. -/
def steps : List StoreStep :=
  [.request (.put "plan.txt" "vpc" ⟨#[97]⟩)]

theorem looksUpExactly_uploaded :
    ∃ store, openAt ⟨.folder [], []⟩ (absolute NewStore.home) = .ok store ∧
      LooksUpExactly (afterAll store steps) ForgedRecord.uploaded.id := by
  have hsize : ∀ u ∈ uploadsOf steps, u.contents.size ≤ Json.maxWord := by
    have huploads : uploadsOf steps = [⟨"vpc", "plan.txt", ⟨#[97]⟩⟩] := by decide
    rw [huploads, List.forall_mem_singleton]
    decide
  obtain ⟨store, hopen, hexact⟩ :=
    looksUpExactly_afterAll (isVacant_of_bareRoot NewStore.isHome_home []) hsize
  have haddress : IsAddress ForgedRecord.uploaded.id := isAddress_of _
  exact ⟨store, hopen, hexact _ haddress.isLookup.no_slash⟩

end OneUpload

/-! ### An id with a slash -/

/-- A dot between the slashes before a name isn't noticed. -/
theorem locate_dot {files : FileSystem} {front : List String} {last : String} {follow : Bool}
    (hne : front ≠ []) (hplain : ∀ name ∈ front ++ [last], IsPlain name)
    (hfits : Fits (front ++ [last]))
    (hroom : (absolute (front ++ [last])).utf8ByteSize + 2 ≤ maxPathSize)
    (hfolder : files.root.kindAt front = some .folder)
    (hlink : ∀ target, files.root.kindAt (front ++ [last]) ≠ some (.link target)) :
    files.locate (absolute front ++ "/" ++ ("./" ++ last)) follow =
      files.locate (absolute (front ++ [last])) follow := by
  obtain ⟨hfront, hlast⟩ := forall_isPlain_concat.1 hplain
  have hpath : absolute (front ++ [last]) = absolute front ++ "/" ++ last := by
    rw [absolute_concat, if_neg hne]
  have hzero :
      ¬ (absolute front ++ "/" ++ ("./" ++ last)).toList.contains (Char.ofNat 0) = true := by
    have hold := hfits.no_zero
    rw [hpath] at hold
    simp only [String.toList_append, List.mem_append, not_or] at hold
    simpa using hold
  have hempty : absolute front ++ "/" ++ ("./" ++ last) ≠ "" := by
    intro h
    have hslash := (String.append_eq_empty_iff.1 h).1
    exact absolute_ne_empty front (String.append_eq_empty_iff.1 hslash).1
  have hsize : ¬ maxPathSize < (absolute front ++ "/" ++ ("./" ++ last)).utf8ByteSize := by
    have hdot : ("./" : String).utf8ByteSize = 2 := by decide
    rw [hpath] at hroom
    simp only [String.utf8ByteSize_append] at hroom ⊢
    omega
  have hsplit : split (absolute front ++ "/" ++ ("./" ++ last)) = "" :: (front ++ [".", last]) := by
    have hdot : "./" ++ last = "." ++ "/" ++ last := by simp
    rw [split_append_slash, hdot, split_append_slash, hlast.split, split_absolute hne hfront,
      split_of_not_mem (by decide)]
    simp
  rw [locate_append hplain hfits hfolder hlink, locate, if_neg hzero, if_neg hempty, if_neg hsize,
    String.append_assoc, isAbsolute_append (absolute_ne_empty front), isAbsolute_absolute,
    if_pos rfl, ← String.append_assoc]
  refine followFrom_done ?_
  rw [hsplit, descend, if_pos (.inl rfl), descend_folders hfront
    (fun name hname => hfits.name_size name (List.mem_append_left _ hname)) hfolder, descend,
    if_pos (.inr rfl)]
  exact descend_last hlast (hfits.name_size last (by simp)) hlink

/-- A record is read for its id with a dot and a slash before it. -/
theorem Mirrors.readRecord_dot {home : List String} {store : DirectoryStore} {memory : MemoryStore}
    (h : store.Mirrors home memory) (hhome : IsHome home) {id : String} (hid : IsAddress id) :
    store.readRecord ("./" ++ id) = .ok (memory.records.find? id) := by
  have hfront : ∀ name ∈ home ++ [recordFolder], IsPlain name :=
    forall_isPlain_concat.2 ⟨hhome.plain, isPlain_folder (by simp)⟩
  have hsplit : home ++ [recordFolder, id ++ ".json"] =
      home ++ [recordFolder] ++ [id ++ ".json"] := by simp
  have hplain := hhome.plain_append hid.isLookup.isInside
  have hfits := hhome.fits_append hid.isLookup.isInside
  have hroom : (absolute (home ++ [recordFolder, id ++ ".json"])).utf8ByteSize + 2 ≤
      maxPathSize := by
    have hsize := utf8ByteSize_absolute_append home [recordFolder, id ++ ".json"]
    have hfolder : recordFolder.utf8ByteSize = 7 := by decide
    have hending : (".json" : String).utf8ByteSize = 5 := by decide
    have hspace : DirectoryStore.room = 214 := rfl
    have hkey := hid.utf8ByteSize
    have hhomeRoom := hhome.room
    simp only [List.map_cons, List.map_nil, List.sum_cons, List.sum_nil,
      String.utf8ByteSize_append] at hsize
    omega
  have hpath : store.recordPath ("./" ++ id) =
      absolute (home ++ [recordFolder]) ++ "/" ++ ("./" ++ (id ++ ".json")) := by
    have hrelative : isAbsolute ("./" ++ id ++ ".json") = false := by
      rw [String.append_assoc, isAbsolute_append (by decide)]
      decide
    rw [recordPath, h.path, join_absolute_name hhome.plain (isPlain_folder (by simp)),
      join_absolute hfront hrelative, if_neg (by simp), @String.append_assoc "./"]
  have hlink := @Mirrors.link store home [recordFolder, id ++ ".json"] memory h
  rw [hsplit] at hplain hfits hroom hlink
  have hlocate := @locate_dot store.files _ _ true (by simp) hplain hfits hroom
    (h.folders recordFolder (by simp)) hlink
  have hread : store.files.read (store.recordPath ("./" ++ id)) =
      store.files.read (store.recordPath id) := by
    rw [hpath, recordPath_eq hhome h.path hid.isLookup.no_slash, hsplit, FileSystem.read,
      FileSystem.read, FileSystem.node, FileSystem.node, hlocate]
  rw [← h.readRecord_eq hhome hid.isLookup, readRecord, readRecord, hread]

namespace OneUpload

/-- Under its id with a dot and a slash before it, the record of a file is found. -/
theorem not_looksUpExactly :
    ∃ store, openAt ⟨.folder [], []⟩ (absolute NewStore.home) = .ok store ∧
      (StoreRequest.stat ("./" ++ ForgedRecord.uploaded.id)).answer (afterAll store steps) =
        .ok (.record (some ForgedRecord.uploaded)) ∧
      ¬ LooksUpExactly (afterAll store steps) ("./" ++ ForgedRecord.uploaded.id) := by
  have hhome := NewStore.isHome_home
  obtain ⟨store, hopen, hopened, _⟩ := (isVacant_of_bareRoot hhome []).exists_openAt
  have hnext : (afterAll store steps).Mirrors NewStore.home ForgedRecord.memory :=
    (hopened.yields_put hhome (show Attachment.isValidName "plan.txt" = true by decide) "vpc"
      (show (⟨#[97]⟩ : ByteArray).size ≤ Json.maxWord by decide)).answer.2
  have hread := hnext.readRecord_dot hhome (isAddress_of _ : IsAddress ForgedRecord.uploaded.id)
  have hstat : (StoreRequest.stat ("./" ++ ForgedRecord.uploaded.id)).answer
      (afterAll store steps) = .ok (.record (some ForgedRecord.uploaded)) :=
    congrArg (Except.map StoreAnswer.record)
      (hread.trans (congrArg Except.ok ForgedRecord.find?_records))
  refine ⟨store, hopen, hstat, fun h => ?_⟩
  have hlength := congrArg String.length (h.stat _ hstat)
  rw [String.length_append] at hlength
  have hdot : ("./" : String).length = 2 := by decide
  omega

end OneUpload

end DirectoryStore

end InfraGraph
