import InfraGraph.Proofs.Attachment.Trusted

/-!
# What a failure leaves behind

An upload that fails changes nothing.  A deletion takes the file of the record away before it looks
whether the contents are still needed, and for that it reads all other records.  So it fails cleanly
exactly if nothing can fail from there on: all records can be read, and the contents are needed by
another record or can be removed.
-/

namespace InfraGraph.DirectoryStore

open InfraGraph.Path FileSystem

/-- If a request fails, the files of records and contents are what they were. -/
def FailsCleanly (store : DirectoryStore) (home : List String) (request : StoreRequest) : Prop :=
  ∀ e, request.answer store = .error e → ∀ folder ∈ [recordFolder, blobFolder],
    ∀ path contents,
      (request.perform store).files.root.kindAt (home ++ folder :: path) = some (.file contents) ↔
        store.files.root.kindAt (home ++ folder :: path) = some (.file contents)

/-- The contents with a digest can be removed, if they are there. -/
def IsRemovable (store : DirectoryStore) (home : List String) (digest : ContentDigest) : Prop :=
  store.files.IsClear (home ++ [blobFolder, shardOf digest.toHex, digest.toHex])

/-- A file beside those of some ids holds a record with a digest. -/
def IsNamedBeside (store : DirectoryStore) (home : List String) (ids : List String)
    (digest : ContentDigest) : Prop :=
  ∃ name record, (∀ id ∈ ids, name ≠ id ++ ".json") ∧ extension? name = some "json" ∧
    store.HoldsRecord home name record ∧ record.digest = digest

/-- The record with an id was taken away, and of everything else contents at most. -/
structure Removes (store next : DirectoryStore) (home : List String) (id : String) : Prop where
  isWorkplace : next.IsWorkplace home
  folder : next.files.root.kindAt (home ++ [recordFolder]) =
    store.files.root.kindAt (home ++ [recordFolder])
  record : ∀ name, next.files.root.kindAt (home ++ [recordFolder, name]) =
    if name = id ++ ".json" then none else store.files.root.kindAt (home ++ [recordFolder, name])
  isRemovable_iff : ∀ digest : ContentDigest, next.IsRemovable home digest ↔
    store.IsRemovable home digest

section Failing

variable {store next : DirectoryStore} {home : List String} {id : String}

theorem failsCleanly_of_perform {request : StoreRequest}
    (h : ∀ e, request.answer store = .error e → request.perform store = store) :
    store.FailsCleanly home request := by
  intro e he folder _ path contents
  rw [h e he]

/-! ### Uploads -/

theorem IsWorkplace.put_failsCleanly (h : store.IsWorkplace home) (name nodeId : String)
    (contents : ByteArray) : store.FailsCleanly home (.put name nodeId contents) := by
  refine failsCleanly_of_perform fun e he => ?_
  have houtcome := h.putOutcome name nodeId contents
  have hanswer : (StoreM.runIn store (put name nodeId contents)).1 = .error e :=
    map_eq_error_iff.1 he
  have hperform : (StoreRequest.put name nodeId contents).perform store =
      (StoreM.runIn store (put name nodeId contents)).2 := rfl
  rw [hperform]
  generalize StoreM.runIn store (put name nodeId contents) = result at houtcome hanswer
  cases houtcome with
  | failed e => rfl
  | trusted hread => rfl
  | written => cases hanswer

/-! ### Removing a record -/

theorem Removes.holdsRecord_iff (h : Removes store next home id) {name : String}
    {record : Attachment} :
    next.HoldsRecord home name record ↔
      name ≠ id ++ ".json" ∧ store.HoldsRecord home name record := by
  rw [HoldsRecord, HoldsRecord, h.record]
  by_cases hname : name = id ++ ".json"
  · simp [hname]
  · simp [hname]

/-- Once a record is gone that could be read, all records can be read if they could before. -/
theorem Removes.exists_records_iff (h : Removes store next home id)
    (hstore : store.IsWorkplace home) {record : Attachment}
    (hholds : store.HoldsRecord home (id ++ ".json") record) :
    (∃ records, next.records = .ok records) ↔ ∃ records, store.records = .ok records := by
  rw [h.isWorkplace.exists_records_iff, hstore.exists_records_iff, h.folder]
  refine and_congr_right fun _ => forall_congr' fun name => ?_
  rw [h.record]
  simp only [h.holdsRecord_iff]
  by_cases hname : name = id ++ ".json"
  · subst hname
    simp only [if_true, reduceCtorEq, false_imp_iff, implies_true, true_iff]
    exact fun _ _ _ => ⟨record, hholds⟩
  · simp [hname]

/-- Contents are collected if all records can be read, and if one of them needs the contents or they
can be removed. -/
theorem IsWorkplace.exists_runIn_collectBlob (h : store.IsWorkplace home)
    {digest : ContentDigest} (hdigest : IsAddress digest.toHex) :
    ∃ answer files, StoreM.runIn store (collectBlob digest) =
        (answer, { store with files := files }) ∧
      (files = store.files ∨
        (∃ contents, store.files.root.kindAt
          (home ++ [blobFolder, shardOf digest.toHex, digest.toHex]) = some (.file contents)) ∧
        files = store.files.remove (home ++ [blobFolder, shardOf digest.toHex, digest.toHex])) ∧
      (answer = .ok () ↔ ∃ records, store.records = .ok records ∧
        ((∃ record ∈ records, record.digest = digest) ∨ store.IsRemovable home digest)) := by
  have hplain := h.isHome.plain_append hdigest.isInside
  have hfits := h.isHome.fits_append hdigest.isInside
  have hunlinked := h.isUnlinked [blobFolder, shardOf digest.toHex, digest.toHex]
  have hlook : StoreM.runIn store (StoreM.look DirectoryStore.records) =
      (store.records, store) := rfl
  rw [collectBlob, StoreM.runIn_bind, hlook]
  cases hrecords : store.records with
  | error e => exact ⟨.error e, store.files, rfl, .inl rfl, by simp⟩
  | ok records =>
      by_cases hnamed : (records.any fun record => record.digest = digest) = true
      · refine ⟨.ok (), store.files, by simp only [hnamed, if_true]; rfl, .inl rfl,
          iff_of_true rfl ⟨records, rfl, .inl ?_⟩⟩
        simpa using hnamed
      · simp only [hnamed, Bool.false_eq_true, if_false]
        have hnone : ¬ ∃ record ∈ records, record.digest = digest := by simpa using hnamed
        have hiff : (∃ found, Except.ok records = (.ok found : Except StoreError _) ∧
            ((∃ record ∈ found, record.digest = digest) ∨ store.IsRemovable home digest)) ↔
              store.IsRemovable home digest := by
          simp [hnone]
        have hpath := blobPath_eq h.isHome h.path hdigest
        rcases hunlinked.removeFile_cases h.kindAt_root hplain hfits with
          ⟨hclear, hremove | hmissing⟩ | ⟨hclear, e, hne, he⟩
        · obtain ⟨_, hfile, _⟩ := (hunlinked.removeFile_eq_ok_iff hplain).1 hremove
          refine ⟨.ok (), _, StoreM.runIn_changeOrFail (by rw [hpath, hremove]), .inr ⟨hfile, rfl⟩,
            iff_of_true rfl (hiff.2 hclear)⟩
        · exact ⟨.ok (), store.files, StoreM.runIn_changeOrFail (by rw [hpath, hmissing]), .inl rfl,
            iff_of_true rfl (hiff.2 hclear)⟩
        · refine ⟨.error (.file e), store.files, StoreM.runIn_changeOrFail_error ?_, .inl rfl,
            iff_of_false nofun fun hremovable => hclear (hiff.1 hremovable)⟩
          rw [hpath, he]
          cases e <;> first | rfl | exact absurd rfl hne

/-- Without the file of a record, the same contents can be removed. -/
theorem IsWorkplace.removes_remove (h : store.IsWorkplace home) (id : String) :
    Removes store { store with
      files := store.files.remove (home ++ [recordFolder, id ++ ".json"]) } home id := by
  have hkind := fun rest => @kindAt_remove home [recordFolder, id ++ ".json"] store.files (by simp)
    rest
  refine ⟨h.remove (by simp), ?_, fun name => ?_, fun digest => isClear_congr fun front hfront => ?_⟩
  · exact (hkind _).trans (if_neg fun hstart => by simpa using hstart.length_le)
  · refine (hkind _).trans ?_
    by_cases hname : name = id ++ ".json"
    · rw [if_pos (hname ▸ List.prefix_rfl), if_pos hname]
    · have hstart : ¬ [recordFolder, id ++ ".json"] <+: [recordFolder, name] := fun hstart =>
        hname (by simpa using (hstart.eq_of_length rfl).symm)
      rw [if_neg hstart, if_neg hname]
  · refine (FileTree.kindAt_erase (by simp) _ _).trans (if_neg fun hstart => ?_)
    have hblob := (List.prefix_append_right_inj home).1 (hstart.trans hfront)
    exact recordFolder_ne_blobFolder (List.cons_prefix_cons.1 hblob).1

theorem Removes.collect (h : Removes store next home id) {digest : ContentDigest}
    (hfile : ∃ contents, next.files.root.kindAt
      (home ++ [blobFolder, shardOf digest.toHex, digest.toHex]) = some (.file contents)) :
    Removes store { next with
      files := next.files.remove (home ++ [blobFolder, shardOf digest.toHex, digest.toHex]) }
      home id := by
  obtain ⟨contents, hfile⟩ := hfile
  have hkind := fun rest => @kindAt_remove home [blobFolder, shardOf digest.toHex, digest.toHex]
    next.files (by simp) rest
  have hbeside : ∀ rest, ¬ [blobFolder, shardOf digest.toHex, digest.toHex] <+:
      recordFolder :: rest := fun rest hstart =>
    recordFolder_ne_blobFolder (List.cons_prefix_cons.1 hstart).1.symm
  refine ⟨h.isWorkplace.remove (by simp), ?_, fun name => ?_, fun other => ?_⟩
  · exact (hkind _).trans ((if_neg (hbeside [])).trans h.folder)
  · exact (hkind _).trans ((if_neg (hbeside [name])).trans (h.record name))
  · refine (isClear_remove_iff hfile (by simp) fun hstart => ?_).trans (h.isRemovable_iff other)
    exact hstart.eq_of_length (by simp)

/-- The removal of a record takes its file away, and succeeds if all records could be read before,
and if a file beside it needs the contents or they can be removed. -/
theorem IsWorkplace.exists_runIn_removeRecord (h : store.IsWorkplace home) {record : Attachment}
    (hid : '/' ∉ record.id.toList)
    (hholds : store.HoldsRecord home (record.id ++ ".json") record) :
    ∃ answer next, StoreM.runIn store (removeRecord record) = (answer, next) ∧
      Removes store next home record.id ∧
      (answer = .ok () ↔ (∃ records, store.records = .ok records) ∧
        (store.IsNamedBeside home [record.id] record.digest ∨
          store.IsRemovable home record.digest)) := by
  obtain ⟨hfits, contents, hfile, _⟩ := id hholds
  have hremoves := h.removes_remove record.id
  have hremove : store.files.removeFile (store.recordPath record.id) =
      .ok (store.files.remove (home ++ [recordFolder, record.id ++ ".json"])) := by
    rw [recordPath_eq h.isHome h.path hid]
    exact removeFile_file (h.plain_record (isPlain_fileName hid)) hfits hfile
  obtain ⟨answer, files, hrun, hfiles, hanswer⟩ :=
    hremoves.isWorkplace.exists_runIn_collectBlob hholds.isAddress_digest
  have hfirst := @runIn_act store (fun store => store.files.removeFile (store.recordPath record.id))
    _ hremove
  refine ⟨answer, { store with files := files }, ?_, ?_, ?_⟩
  · rw [removeRecord, StoreM.runIn_bind, hfirst]
    exact hrun
  · rcases hfiles with rfl | ⟨hblob, rfl⟩
    · exact hremoves
    · exact hremoves.collect hblob
  · rw [hanswer, ← hremoves.exists_records_iff h hholds, hremoves.isRemovable_iff]
    constructor
    · rintro ⟨records, hrecords, hcollect⟩
      refine ⟨⟨records, hrecords⟩, hcollect.imp_left ?_⟩
      rintro ⟨other, hother, hdigest⟩
      obtain ⟨name, hextension, hname⟩ :=
        (hremoves.isWorkplace.mem_records_iff hrecords).1 hother
      obtain ⟨hne, hname⟩ := hremoves.holdsRecord_iff.1 hname
      exact ⟨name, other, by simpa using hne, hextension, hname, hdigest⟩
    · rintro ⟨⟨records, hrecords⟩, hcollect⟩
      refine ⟨records, hrecords, hcollect.imp_left ?_⟩
      rintro ⟨name, other, hne, hextension, hname, hdigest⟩
      exact ⟨other, (hremoves.isWorkplace.mem_records_iff hrecords).2
        ⟨name, hextension, hremoves.holdsRecord_iff.2 ⟨by simpa using hne, hname⟩⟩, hdigest⟩

/-! ### Deletions -/

/-- Where no record is read, nothing is deleted. -/
theorem deleteOne_failsCleanly_of_not_read
    (hread : ∀ record, store.readRecord id ≠ .ok (some record)) :
    store.FailsCleanly home (.deleteOne id) := by
  refine failsCleanly_of_perform fun e _ => ?_
  have hperform : (StoreRequest.deleteOne id).perform store =
      (StoreM.runIn store (deleteOne id)).2 := rfl
  have hlook : StoreM.runIn store (StoreM.look fun store => store.readRecord id) =
      (store.readRecord id, store) := rfl
  rw [hperform, deleteOne, StoreM.runIn_bind, hlook]
  cases hfound : store.readRecord id with
  | error e => rfl
  | ok found =>
      cases found with
      | none => rfl
      | some record => exact absurd hfound (hread record)

/-- A failure after the record is gone isn't clean. -/
theorem Removes.not_failsCleanly (h : Removes store next home id) {request : StoreRequest}
    {e : StoreError} (hanswer : request.answer store = .error e)
    (hperform : request.perform store = next) {record : Attachment}
    (hholds : store.HoldsRecord home (id ++ ".json") record) :
    ¬ store.FailsCleanly home request := by
  intro hclean
  obtain ⟨_, contents, hfile, _⟩ := hholds
  have hkept := (hclean e hanswer recordFolder (by simp) [id ++ ".json"] contents).2 hfile
  rw [hperform, h.record, if_pos rfl] at hkept
  cases hkept

/-- A record that is in its own file is taken away, whatever the answer is. -/
theorem IsWorkplace.exists_perform_deleteOne (h : store.IsWorkplace home) {record : Attachment}
    (hid : '/' ∉ id.toList) (hread : store.readRecord id = .ok (some record))
    (hself : record.id = id) :
    ∃ answer : Except StoreError Unit,
      (StoreRequest.deleteOne id).answer store = answer.map (fun _ => .done) ∧
      Removes store ((StoreRequest.deleteOne id).perform store) home id ∧
      (answer = .ok () ↔ (∃ records, store.records = .ok records) ∧
        (store.IsNamedBeside home [id] record.digest ∨ store.IsRemovable home record.digest)) := by
  subst hself
  have hholds := (h.readRecord_eq_some_iff hid).1 hread
  obtain ⟨answer, next, hrun, hremoves, hok⟩ := h.exists_runIn_removeRecord hid hholds
  have hlook : StoreM.runIn store (StoreM.look fun store => store.readRecord record.id) =
      (.ok (some record), store) := by
    rw [← hread]
    rfl
  have hdelete : StoreM.runIn store (deleteOne record.id) = (answer, next) := by
    rw [deleteOne, StoreM.runIn_bind, hlook]
    exact hrun
  have hperform : (StoreRequest.deleteOne record.id).perform store = next :=
    congrArg Prod.snd hdelete
  exact ⟨answer, congrArg (fun result : Except StoreError Unit × DirectoryStore =>
    result.1.map fun _ => StoreAnswer.done) hdelete, hperform ▸ hremoves, hok⟩

/-- The deletion of a record that is in its own file fails cleanly exactly if it cannot fail. -/
theorem IsWorkplace.deleteOne_failsCleanly_iff (h : store.IsWorkplace home)
    {record : Attachment} (hid : '/' ∉ id.toList)
    (hread : store.readRecord id = .ok (some record)) (hself : record.id = id) :
    store.FailsCleanly home (.deleteOne id) ↔ (∃ records, store.records = .ok records) ∧
      (store.IsNamedBeside home [id] record.digest ∨ store.IsRemovable home record.digest) := by
  have hholds := (h.readRecord_eq_some_iff hid).1 hread
  obtain ⟨answer, hanswer, hremoves, hok⟩ := h.exists_perform_deleteOne hid hread hself
  rw [← hok]
  cases answer with
  | ok done => exact iff_of_true (fun e he => nomatch hanswer.symm.trans he) rfl
  | error e => exact iff_of_false (hremoves.not_failsCleanly hanswer rfl hholds) nofun

theorem deleteOfNode_failsCleanly_of_error {e : StoreError} (hrecords : store.records = .error e)
    (nodeId : String) : store.FailsCleanly home (.deleteOfNode nodeId) := by
  refine failsCleanly_of_perform fun _ _ => ?_
  have hperform : (StoreRequest.deleteOfNode nodeId).perform store =
      (StoreM.runIn store (deleteOfNode nodeId)).2 := rfl
  have hlook : StoreM.runIn store (StoreM.look DirectoryStore.records) =
      (store.records, store) := rfl
  rw [hperform, deleteOfNode, StoreM.runIn_bind, hlook, hrecords]

theorem Removes.isNamedBeside_iff (h : Removes store next home id) {ids : List String}
    {digest : ContentDigest} :
    next.IsNamedBeside home ids digest ↔ store.IsNamedBeside home (id :: ids) digest := by
  simp only [IsNamedBeside, h.holdsRecord_iff, List.forall_mem_cons]
  refine exists_congr fun name => exists_congr fun record => ?_
  tauto

/-- Records are removed one after the other.  That succeeds if for each of them a file beside all of
theirs needs the contents or these can be removed. -/
theorem IsWorkplace.exists_runIn_removeRecords {removed : List Attachment}
    (h : store.IsWorkplace home) (hrecords : ∃ records, store.records = .ok records)
    (hheld : ∀ record ∈ removed, '/' ∉ record.id.toList ∧
      store.HoldsRecord home (record.id ++ ".json") record)
    (hnodup : (removed.map (·.id)).Nodup) :
    ∃ answer next, StoreM.runIn store (removed.forM removeRecord) = (answer, next) ∧
      (∀ name, store.files.root.kindAt (home ++ [recordFolder, name]) = none →
        next.files.root.kindAt (home ++ [recordFolder, name]) = none) ∧
      (∀ e, answer = .error e → ∃ record ∈ removed,
        next.files.root.kindAt (home ++ [recordFolder, record.id ++ ".json"]) = none) ∧
      (answer = .ok () ↔ ∀ record ∈ removed,
        store.IsNamedBeside home (removed.map (·.id)) record.digest ∨
          store.IsRemovable home record.digest) := by
  induction removed generalizing store with
  | nil => exact ⟨.ok (), store, rfl, fun _ hnone => hnone, nofun, iff_of_true rfl (by simp)⟩
  | cons record removed ih =>
      rw [List.forall_mem_cons] at hheld
      rw [List.map_cons, List.nodup_cons] at hnodup
      obtain ⟨⟨hid, hholds⟩, hheld⟩ := hheld
      obtain ⟨answer, middle, hrun, hremoves, hok⟩ := h.exists_runIn_removeRecord hid hholds
      rw [and_iff_right hrecords] at hok
      have hgone : ∀ name, store.files.root.kindAt (home ++ [recordFolder, name]) = none →
          middle.files.root.kindAt (home ++ [recordFolder, name]) = none := by
        intro name hnone
        rw [hremoves.record, hnone, ite_self]
      have hself : middle.files.root.kindAt
          (home ++ [recordFolder, record.id ++ ".json"]) = none := by
        rw [hremoves.record, if_pos rfl]
      cases answer with
      | error e =>
          refine ⟨.error e, middle, by rw [List.forM, StoreM.runIn_bind, hrun], hgone,
            fun _ _ => ⟨record, by simp, hself⟩, iff_of_false nofun fun hall => ?_⟩
          have hfirst := hok.2 ((hall record (by simp)).imp_left ?_)
          · cases hfirst
          · rintro ⟨name, other, hne, hother⟩
            exact ⟨name, other, fun id hid => hne id (by simpa using .inl (by simpa using hid)),
              hother⟩
      | ok done =>
          have hheld' : ∀ other ∈ removed, '/' ∉ other.id.toList ∧
              middle.HoldsRecord home (other.id ++ ".json") other := by
            intro other hother
            refine ⟨(hheld other hother).1, hremoves.holdsRecord_iff.2
              ⟨fun hname => hnodup.1 ?_, (hheld other hother).2⟩⟩
            exact List.mem_map.2 ⟨other, hother, fileName_inj hname⟩
          obtain ⟨answer, last, hrest, hgone', _, hok'⟩ :=
            ih hremoves.isWorkplace ((hremoves.exists_records_iff h hholds).2 hrecords) hheld'
              hnodup.2
          refine ⟨answer, last, ?_, fun name hnone => hgone' name (hgone name hnone),
            fun _ _ => ⟨record, by simp, hgone' _ hself⟩, ?_⟩
          · rw [List.forM, StoreM.runIn_bind, hrun]
            exact hrest
          · simp only [hok', hremoves.isNamedBeside_iff, hremoves.isRemovable_iff,
              List.forall_mem_cons, List.map_cons]
            refine ⟨fun hall => ⟨?_, hall⟩, fun hall => hall.2⟩
            -- If it is one of the rest that needs the contents, it says what becomes of them.
            rcases hok.1 rfl with ⟨name, other, hne, hextension, hother, hdigest⟩ | hremovable
            · by_cases hrest : ∃ later ∈ removed, name = later.id ++ ".json"
              · obtain ⟨later, hlater, rfl⟩ := hrest
                obtain rfl := hother.eq (hheld later hlater).2
                exact hdigest ▸ hall other hlater
              · refine .inl ⟨name, other, ?_, hextension, hother, hdigest⟩
                rw [List.forall_mem_cons, List.forall_mem_map]
                exact ⟨hne _ (by simp), fun later hlater hname => hrest ⟨later, hlater, hname⟩⟩
            · exact .inr hremovable

/-! ### Records in their own files -/

/-- Every record is in the file that is named after its id. -/
def IsFiled (store : DirectoryStore) (home : List String) : Prop :=
  ∀ name record, extension? name = some "json" → store.HoldsRecord home name record →
    record.id ++ ".json" = name

theorem IsFiled.holdsRecord (hfiled : store.IsFiled home) (h : store.IsWorkplace home)
    {records : List Attachment} (hrecords : store.records = .ok records) {record : Attachment}
    (hrecord : record ∈ records) :
    '/' ∉ record.id.toList ∧ extension? (record.id ++ ".json") = some "json" ∧
      store.HoldsRecord home (record.id ++ ".json") record := by
  obtain ⟨name, hextension, hholds⟩ := (h.mem_records_iff hrecords).1 hrecord
  obtain ⟨_, contents, hkind, _⟩ := id hholds
  obtain rfl := hfiled name record hextension hholds
  refine ⟨fun hslash => (h.plain _ _ hkind).no_slash ?_, hextension, hholds⟩
  rw [String.toList_append]
  exact List.mem_append_left _ hslash

/-- Records in their own files have ids of their own. -/
theorem IsFiled.nodup_records (hfiled : store.IsFiled home) (h : store.IsWorkplace home)
    {records : List Attachment} (hrecords : store.records = .ok records) :
    (records.map (·.id)).Nodup := by
  obtain ⟨es, found, hes, hfound, rfl⟩ := h.records_eq_ok_iff.1 hrecords
  have hascending := (FileTree.wellFormed_folder_iff.1 (h.wellFormed.of_find? hes)).1
  have hnames := sublist_map_filterMap (g := fun record : Attachment => record.id ++ ".json")
    hfound fun entry hentry record hread => by
      obtain ⟨kind, hkind⟩ := (h.exists_kindAt_iff hes).2 ⟨entry.2, hentry⟩
      obtain ⟨hextension, hholds⟩ :=
        (h.recordOfEntry_eq_some_iff (h.plain _ kind hkind)).1 hread
      exact hfiled entry.1 record hextension hholds
  have hnodup : ((found.filterMap id).map (·.id)).Nodup := by
    refine List.Nodup.of_map (fun id => id ++ ".json") ?_
    rw [List.map_map]
    exact hascending.keys_nodup.sublist hnames
  exact (((List.mergeSort_perm _ _).map _).nodup_iff).2 hnodup

/-- The deletion of a node fails cleanly if the records can't be read, or else exactly if it cannot
fail. -/
theorem IsWorkplace.deleteOfNode_failsCleanly_iff (h : store.IsWorkplace home)
    (hfiled : store.IsFiled home) {records : List Attachment}
    (hrecords : store.records = .ok records) (nodeId : String) :
    store.FailsCleanly home (.deleteOfNode nodeId) ↔
      ∀ record ∈ records, record.nodeId = nodeId →
        (∃ other ∈ records, other.nodeId ≠ nodeId ∧ other.digest = record.digest) ∨
          store.IsRemovable home record.digest := by
  obtain ⟨removed, hremoved⟩ : ∃ removed, removed =
    records.filter fun record => record.nodeId = nodeId := ⟨_, rfl⟩
  have hmem : ∀ record, record ∈ removed ↔ record ∈ records ∧ record.nodeId = nodeId := by
    simp [hremoved]
  have hnodup : (removed.map (·.id)).Nodup :=
    (hfiled.nodup_records h hrecords).sublist (hremoved ▸ List.filter_sublist.map _)
  have hheld : ∀ record ∈ removed, '/' ∉ record.id.toList ∧
      store.HoldsRecord home (record.id ++ ".json") record := fun record hrecord =>
    have hown := hfiled.holdsRecord h hrecords ((hmem record).1 hrecord).1
    ⟨hown.1, hown.2.2⟩
  obtain ⟨answer, next, hrun, _, hgone, hok⟩ :=
    h.exists_runIn_removeRecords ⟨records, hrecords⟩ hheld hnodup
  have hbeside : ∀ digest, store.IsNamedBeside home (removed.map (·.id)) digest ↔
      ∃ other ∈ records, other.nodeId ≠ nodeId ∧ other.digest = digest := by
    intro digest
    constructor
    · rintro ⟨name, other, hne, hextension, hholds, hdigest⟩
      have hother := (h.mem_records_iff hrecords).2 ⟨name, hextension, hholds⟩
      refine ⟨other, hother, fun hnode => ?_, hdigest⟩
      exact hne other.id (List.mem_map_of_mem ((hmem other).2 ⟨hother, hnode⟩))
        (hfiled name other hextension hholds).symm
    · rintro ⟨other, hother, hnode, hdigest⟩
      obtain ⟨_, hextension, hholds⟩ := hfiled.holdsRecord h hrecords hother
      refine ⟨_, other, fun id hid hname => ?_, hextension, hholds, hdigest⟩
      obtain ⟨record, hrecord, rfl⟩ := List.mem_map.1 hid
      obtain rfl := hholds.eq (hname ▸ (hheld record hrecord).2)
      exact hnode ((hmem other).1 hrecord).2
  have hdelete : StoreM.runIn store (deleteOfNode nodeId) = (answer, next) := by
    have hlook : StoreM.runIn store (StoreM.look DirectoryStore.records) =
        (.ok records, store) := by
      rw [← hrecords]
      rfl
    rw [deleteOfNode, StoreM.runIn_bind, hlook, ← hrun, hremoved]
  have hanswer : (StoreRequest.deleteOfNode nodeId).answer store =
      answer.map fun _ => StoreAnswer.done :=
    congrArg (fun result : Except StoreError Unit × DirectoryStore =>
      result.1.map fun _ => StoreAnswer.done) hdelete
  simp only [hmem, hbeside, and_imp] at hok
  rw [← hok]
  cases answer with
  | ok done => exact iff_of_true (fun e he => nomatch hanswer.symm.trans he) rfl
  | error e =>
      obtain ⟨record, hrecord, hnone⟩ := hgone e rfl
      obtain ⟨_, contents, hfile, _⟩ := (hheld record hrecord).2
      refine iff_of_false (fun hclean => ?_) nofun
      have hkept := (hclean e hanswer recordFolder (by simp) [record.id ++ ".json"] contents).2 hfile
      rw [show (StoreRequest.deleteOfNode nodeId).perform store = next from
        congrArg Prod.snd hdelete, hnone] at hkept
      cases hkept

/-- An upload always fails cleanly.  A deletion does so exactly if it cannot fail once it has begun:
all records can be read, and the contents of each record that is to go are needed by a record that
stays or can be removed. -/
theorem IsWorkplace.failsCleanly (h : store.IsWorkplace home) :
    (∀ name nodeId contents, store.FailsCleanly home (.put name nodeId contents)) ∧
    (∀ id : String, '/' ∉ id.toList →
      (∀ record, store.readRecord id = .ok (some record) → record.id = id) →
      (store.FailsCleanly home (.deleteOne id) ↔
        ∀ record, store.readRecord id = .ok (some record) →
          (∃ records, store.records = .ok records) ∧
            (store.IsNamedBeside home [id] record.digest ∨
              store.IsRemovable home record.digest))) ∧
    (store.IsFiled home → ∀ nodeId,
      (store.FailsCleanly home (.deleteOfNode nodeId) ↔
        ∀ records, store.records = .ok records → ∀ record ∈ records, record.nodeId = nodeId →
          (∃ other ∈ records, other.nodeId ≠ nodeId ∧ other.digest = record.digest) ∨
            store.IsRemovable home record.digest)) := by
  refine ⟨h.put_failsCleanly, fun id hid hself => ?_, fun hfiled nodeId => ?_⟩
  · by_cases hread : ∃ record, store.readRecord id = .ok (some record)
    · obtain ⟨record, hread⟩ := hread
      rw [h.deleteOne_failsCleanly_iff hid hread (hself record hread)]
      simp [hread]
    · rw [not_exists] at hread
      exact iff_of_true (deleteOne_failsCleanly_of_not_read hread) fun record hrecord =>
        absurd hrecord (hread record)
  · cases hrecords : store.records with
    | error e =>
        exact iff_of_true (deleteOfNode_failsCleanly_of_error hrecords nodeId) nofun
    | ok records =>
        rw [h.deleteOfNode_failsCleanly_iff hfiled hrecords]
        simp

/-- Once its record is gone, nothing is found under an id. -/
theorem Removes.readRecord_eq_none (h : Removes store next home id) (hid : IsLookup id)
    (hfolder : store.files.root.kindAt (home ++ [recordFolder]) = some .folder) :
    next.readRecord id = .ok none := by
  have hhome := h.isWorkplace.isHome
  have hplain := hhome.plain_append hid.isInside
  have hfits := hhome.fits_append hid.isInside
  have hsplit : home ++ [recordFolder, id ++ ".json"] =
      home ++ [recordFolder] ++ [id ++ ".json"] := by simp
  have hnone := h.record (id ++ ".json")
  rw [if_pos rfl] at hnone
  rw [hsplit] at hplain hfits hnone
  refine readRecord_of_notFound ?_
  rw [recordPath_eq hhome h.isWorkplace.path hid.no_slash, hsplit]
  exact read_missing hplain hfits ⟨h.folder.trans hfolder, hnone⟩

end Failing

section Mirrors

variable {store : DirectoryStore} {home : List String} {memory : MemoryStore}

theorem Mirrors.isFiled (h : store.Mirrors home memory) : store.IsFiled home := by
  rintro name record _ ⟨_, contents, hkind, hread⟩
  obtain ⟨id, found, hfind, rfl, rfl⟩ := (h.file.1 hkind).exists_record
  rw [recordOfBytes_recordText (h.writable.record id found hfind)] at hread
  obtain rfl := Except.ok.inj hread
  rw [(h.writable.id id found hfind).1]

/-- Contents that are there can be removed. -/
theorem Mirrors.isRemovable (h : store.Mirrors home memory) (hsound : memory.IsSound)
    {id : String} {record : Attachment} (hfind : memory.records.find? id = some record) :
    store.IsRemovable home record.digest := by
  obtain ⟨contents, hcontents⟩ := hsound id record hfind
  exact isClear_of_file (h.kept _ _ (.blob hcontents))

end Mirrors

namespace OneUpload

/-- In a store that no other program has changed, everything fails cleanly. -/
theorem failsCleanly_uploaded :
    ∃ store, openAt ⟨.folder [], []⟩ (absolute NewStore.home) = .ok store ∧
      (afterAll store steps).IsWorkplace NewStore.home ∧
      (afterAll store steps).FailsCleanly NewStore.home (.put "a/b" "vpc" ⟨#[97]⟩) ∧
      (afterAll store steps).FailsCleanly NewStore.home (.deleteOne ForgedRecord.uploaded.id) ∧
      (afterAll store steps).FailsCleanly NewStore.home (.deleteOfNode "vpc") := by
  have hid : IsAddress ForgedRecord.uploaded.id := isAddress_of _
  obtain ⟨store, hopen, hmirrors⟩ := exists_mirrors
  have hwork := hmirrors.isWorkplace NewStore.isHome_home
  have hread := hmirrors.readRecord_eq NewStore.isHome_home hid.isLookup
  have hrecords := hmirrors.records_eq NewStore.isHome_home
  have hsound : ForgedRecord.memory.IsSound := MemoryStore.isSound_empty.add _ _
  obtain ⟨hput, hdelete, hdeleteNode⟩ := hwork.failsCleanly
  have hfind : ∀ record, (afterAll store steps).readRecord ForgedRecord.uploaded.id =
      .ok (some record) → ForgedRecord.memory.records.find? ForgedRecord.uploaded.id =
        some record := by
    intro record hrecord
    rw [hread] at hrecord
    exact Except.ok.inj hrecord
  refine ⟨store, hopen, hwork, hput _ _ _, ?_, ?_⟩
  · exact (hdelete _ hid.isLookup.no_slash fun record hrecord =>
      (hmirrors.writable.id _ record (hfind record hrecord)).1).2 fun record hrecord =>
        ⟨⟨_, hrecords⟩, .inr (hmirrors.isRemovable hsound (hfind record hrecord))⟩
  · refine (hdeleteNode hmirrors.isFiled "vpc").2 fun records hlisted record hrecord _ => ?_
    obtain rfl := Except.ok.inj (hrecords.symm.trans hlisted)
    obtain ⟨id, hfound⟩ := SortedMap.mem_values_iff.1 hrecord
    exact .inr (hmirrors.isRemovable hsound hfound)

end OneUpload

namespace DamagedRecord

/-- Another program has written a file that is no record. -/
def damaged (store : DirectoryStore) : DirectoryStore :=
  { store with
    files := store.files.put (NewStore.home ++ ([recordFolder] ++ ["broken.json"]))
      (.file "\x7b".toUTF8) }

theorem recordOfBytes_broken : recordOfBytes "\x7b".toUTF8 = .error .corruptRecord := by
  decide +kernel

theorem fileName_ne_broken {id : String} (h : IsAddress id) : id ++ ".json" ≠ "broken.json" := by
  intro hname
  have hsize := congrArg String.utf8ByteSize hname
  rw [String.utf8ByteSize_append, h.utf8ByteSize] at hsize
  exact absurd hsize (by decide)

/-- The record can be read, its deletion fails, and it is gone. -/
theorem exists_half_deleted :
    ∃ store, openAt ⟨.folder [], []⟩ (absolute NewStore.home) = .ok store ∧
      let left := damaged (afterAll store OneUpload.steps)
      left.IsWorkplace NewStore.home ∧
      left.readRecord ForgedRecord.uploaded.id = .ok (some ForgedRecord.uploaded) ∧
      (∃ e, (StoreRequest.deleteOne ForgedRecord.uploaded.id).answer left = .error e) ∧
      ((StoreRequest.deleteOne ForgedRecord.uploaded.id).perform left).readRecord
        ForgedRecord.uploaded.id = .ok none := by
  have hid : IsAddress ForgedRecord.uploaded.id := isAddress_of _
  obtain ⟨store, hopen, hmirrors⟩ := OneUpload.exists_mirrors
  have hwork := hmirrors.isWorkplace NewStore.isHome_home
  have hnone : (afterAll store OneUpload.steps).files.root.kindAt
      (NewStore.home ++ ([recordFolder] ++ ["broken.json"])) = none := by
    refine hmirrors.kindAt_of_not_keeps (isFilePath_record "broken.json") fun contents hkeeps => ?_
    obtain ⟨id, record, hfind, hname, _⟩ := hkeeps.exists_record
    exact fileName_ne_broken (hmirrors.writable.id id record hfind).2 hname
  have hfolder := hmirrors.folders recordFolder (by simp)
  have hkind := kindAt_put hfolder hnone "\x7b".toUTF8
  obtain ⟨left, hleft⟩ : ∃ left, left = damaged (afterAll store OneUpload.steps) := ⟨_, rfl⟩
  have hleftWork : left.IsWorkplace NewStore.home :=
    hleft ▸ hwork.addFile hfolder hnone (by decide) (by decide) _
  have hrecord : left.files.root.kindAt (NewStore.home ++
      [recordFolder, ForgedRecord.uploaded.id ++ ".json"]) =
        some (.file (recordText ForgedRecord.uploaded)) := by
    have hne : [recordFolder, ForgedRecord.uploaded.id ++ ".json"] ≠
        [recordFolder] ++ ["broken.json"] := fun heq =>
      fileName_ne_broken hid (List.cons.inj (List.cons.inj heq).2).1
    rw [hleft]
    exact (hkind _).trans ((if_neg hne).trans
      (hmirrors.kept _ _ (.record ForgedRecord.find?_records)))
  have hbroken : left.files.root.kindAt (NewStore.home ++ [recordFolder, "broken.json"]) =
      some (.file "\x7b".toUTF8) := by
    rw [hleft]
    exact (hkind _).trans (if_pos rfl)
  have hholds : left.HoldsRecord NewStore.home (ForgedRecord.uploaded.id ++ ".json")
      ForgedRecord.uploaded :=
    ⟨NewStore.isHome_home.fits_append hid.isLookup.isInside, _, hrecord,
      recordOfBytes_recordText (Attachment.isWritable_ofFile (by decide))⟩
  have hunreadable : ¬ ∃ records, left.records = .ok records := by
    intro hrecords
    obtain ⟨record, _, contents, hfile, hread⟩ :=
      (hleftWork.exists_records_iff.1 hrecords).2 _ _ hbroken (by decide)
    rw [hbroken] at hfile
    obtain rfl := FileTree.Kind.file.inj (Option.some.inj hfile)
    rw [recordOfBytes_broken] at hread
    cases hread
  have hread := (hleftWork.readRecord_eq_some_iff hid.isLookup.no_slash).2 hholds
  obtain ⟨answer, hanswer, hremoves, hok⟩ :=
    hleftWork.exists_perform_deleteOne hid.isLookup.no_slash hread rfl
  have hleftFolder := (hkind [recordFolder]).trans ((if_neg (by decide)).trans hfolder)
  refine ⟨store, hopen, hleft ▸ hleftWork, hleft ▸ hread, ?_,
    hleft ▸ hremoves.readRecord_eq_none hid.isLookup (hleft ▸ hleftFolder)⟩
  rw [← hleft, hanswer]
  cases answer with
  | error e => exact ⟨e, rfl⟩
  | ok done => exact absurd (hok.1 rfl).1 hunreadable

end DamagedRecord

end InfraGraph.DirectoryStore
