import InfraGraph.Proofs.Attachment.Record
import InfraGraph.Proofs.Attachment.Requests

/-!
# Stores in memory are tidy

After every step a store in memory has exactly the contents that its records name, each under the
digest of its bytes.  Removing records comes to the same whether their contents are collected after
each of them or after all: what is left are the other records with the contents that these name.
-/

namespace InfraGraph

theorem Upload.digest_record (u : Upload) : u.record.digest = ContentDigest.of u.contents := rfl

namespace MemoryStore

/-- Some record names the contents that are kept under a key. -/
def Names (records : SortedMap Attachment) (key : String) : Prop :=
  ∃ id record, records.find? id = some record ∧ record.digest.toHex = key

/-- The store has the contents that its records name, and nothing in it comes from anywhere but
from some uploads. -/
structure IsTidy (uploads : List Upload) (store : MemoryStore) : Prop where
  records : ∀ id record, store.records.find? id = some record →
    record.id = id ∧ ∃ u ∈ uploads, u.record = record
  blobs : ∀ key contents, store.blobs.find? key = some contents →
    (ContentDigest.of contents).toHex = key ∧ ∃ u ∈ uploads, u.contents = contents
  named : ∀ key, (∃ contents, store.blobs.find? key = some contents) ↔ Names store.records key

/-- The store with other records, and with the contents that these name. -/
def keep (store : MemoryStore) (records : SortedMap Attachment) : MemoryStore where
  blobs := store.blobs.filter fun entry =>
    records.values.any fun record => record.digest.toHex = entry.1
  records := records

section Names

variable {records : SortedMap Attachment} {key : String}

theorem exists_mem_values_iff :
    (∃ record ∈ records.values, record.digest.toHex = key) ↔ Names records key := by
  simp only [SortedMap.mem_values_iff]
  constructor
  · intro ⟨record, ⟨id, hfind⟩, hkey⟩
    exact ⟨id, record, hfind, hkey⟩
  · intro ⟨id, record, hfind, hkey⟩
    exact ⟨record, ⟨id, hfind⟩, hkey⟩

theorem Names.mono {more : SortedMap Attachment} (h : Names records key)
    (hsub : ∀ id record, records.find? id = some record → more.find? id = some record) :
    Names more key := by
  obtain ⟨id, record, hfind, hkey⟩ := h
  exact ⟨id, record, hsub id record hfind, hkey⟩

theorem names_insert_iff {record : Attachment} (hnone : records.find? record.id = none) :
    Names (records.insert record.id record) key ↔
      record.digest.toHex = key ∨ Names records key := by
  constructor
  · intro ⟨id, other, hfind, hkey⟩
    rw [SortedMap.find?_insert] at hfind
    split at hfind
    · exact .inl (Option.some.inj hfind ▸ hkey)
    · exact .inr ⟨id, other, hfind, hkey⟩
  · rintro (hkey | hnames)
    · exact ⟨record.id, record, SortedMap.find?_insert_self _ _ _, hkey⟩
    · exact hnames.mono fun id other hfind =>
        SortedMap.find?_insert_of_find? hnone record hfind

end Names

section Keep

variable {store : MemoryStore} {records : SortedMap Attachment} {uploads : List Upload}

theorem ext_find? {a b : MemoryStore} (hrecords : a.records = b.records)
    (hblobs : ∀ key contents,
      a.blobs.find? key = some contents ↔ b.blobs.find? key = some contents) : a = b := by
  obtain ⟨blobs, records⟩ := a
  obtain ⟨blobs', records'⟩ := b
  obtain rfl : records = records' := hrecords
  congr
  exact SortedMap.ext_find? fun key => Option.ext fun contents => hblobs key contents

@[simp] theorem records_keep : (store.keep records).records = records := rfl

theorem find?_blobs_keep {key : String} {contents : ByteArray} :
    (store.keep records).blobs.find? key = some contents ↔
      store.blobs.find? key = some contents ∧ Names records key := by
  rw [keep, SortedMap.find?_filter, Option.filter_eq_some_iff, List.any_eq_true,
    ← exists_mem_values_iff]
  simp only [decide_eq_true_eq]

/-- Only the records that are kept last count. -/
theorem keep_keep {fewer : SortedMap Attachment}
    (hsub : ∀ id record, fewer.find? id = some record → records.find? id = some record) :
    (store.keep records).keep fewer = store.keep fewer := by
  refine ext_find? rfl fun key contents => ?_
  rw [find?_blobs_keep, find?_blobs_keep, find?_blobs_keep]
  constructor
  · intro ⟨⟨hfind, _⟩, hnames⟩
    exact ⟨hfind, hnames⟩
  · intro ⟨hfind, hnames⟩
    exact ⟨⟨hfind, hnames.mono hsub⟩, hnames⟩

theorem IsTidy.keep (h : store.IsTidy uploads)
    (hsub : ∀ id record, records.find? id = some record → store.records.find? id = some record) :
    (store.keep records).IsTidy uploads := by
  refine ⟨fun id record hfind => h.records id record (hsub id record hfind),
    fun key contents hfind => h.blobs key contents (find?_blobs_keep.1 hfind).1, fun key => ?_⟩
  constructor
  · intro ⟨contents, hfind⟩
    exact (find?_blobs_keep.1 hfind).2
  · intro hnames
    obtain ⟨contents, hfind⟩ := (h.named key).2 (hnames.mono hsub)
    exact ⟨contents, find?_blobs_keep.2 ⟨hfind, hnames⟩⟩

/-- A store that is tidy keeps nothing but what it has. -/
theorem IsTidy.keep_self (h : store.IsTidy uploads) : store.keep store.records = store := by
  refine ext_find? rfl fun key contents => ?_
  rw [find?_blobs_keep]
  exact ⟨fun hfind => hfind.1, fun hfind => ⟨hfind, (h.named key).1 ⟨contents, hfind⟩⟩⟩

end Keep

/-! ### Collecting contents -/

section Collect

variable {store : MemoryStore} {uploads : List Upload}

@[simp] theorem records_collectBlob (digest : ContentDigest) :
    (store.collectBlob digest).records = store.records := by
  unfold collectBlob
  split <;> rfl

theorem find?_blobs_collectBlob {digest : ContentDigest} {key : String} {contents : ByteArray} :
    (store.collectBlob digest).blobs.find? key = some contents ↔
      store.blobs.find? key = some contents ∧
        (digest.toHex = key → Names store.records key) := by
  have hany : (store.records.values.any fun record => record.digest = digest) = true ↔
      Names store.records digest.toHex := by
    rw [← exists_mem_values_iff, List.any_eq_true]
    refine exists_congr fun record => and_congr_right fun _ => ?_
    rw [decide_eq_true_eq]
    exact ⟨fun h => congrArg ContentDigest.toHex h, ContentDigest.toHex_inj⟩
  unfold collectBlob
  split
  · rename_i hneeded
    rw [hany] at hneeded
    exact ⟨fun hfind => ⟨hfind, fun hkey => hkey ▸ hneeded⟩, fun hfind => hfind.1⟩
  · rename_i hneeded
    rw [hany] at hneeded
    rw [SortedMap.find?_erase]
    by_cases hkey : key = digest.toHex
    · subst hkey
      simp [hneeded]
    · simp [hkey, Ne.symm hkey]

theorem collectBlobs_spec (removed : List Attachment) :
    (removed.foldl (fun store record => store.collectBlob record.digest) store).records =
        store.records ∧
      ∀ key contents,
        (removed.foldl (fun store record => store.collectBlob record.digest) store).blobs.find?
            key = some contents ↔
          store.blobs.find? key = some contents ∧
            ((∃ record ∈ removed, record.digest.toHex = key) → Names store.records key) := by
  induction removed generalizing store with
  | nil => simp
  | cons record removed ih =>
      obtain ⟨hrecords, hblobs⟩ := @ih (store.collectBlob record.digest)
      rw [records_collectBlob] at hrecords hblobs
      refine ⟨hrecords, fun key contents => ?_⟩
      rw [List.foldl_cons, hblobs, find?_blobs_collectBlob, List.exists_mem_cons_iff, or_imp,
        and_assoc]

/-- Once the contents of all removed records are collected, what is left is what the other records
name. -/
theorem IsTidy.collectBlobs_eq (h : store.IsTidy uploads) {records : SortedMap Attachment}
    {removed : List Attachment}
    (hrest : ∀ id record, store.records.find? id = some record →
      records.find? id = some record ∨ record ∈ removed) :
    removed.foldl (fun store record => store.collectBlob record.digest)
      { store with records := records } = store.keep records := by
  obtain ⟨hrecords, hblobs⟩ := @collectBlobs_spec { store with records := records } removed
  refine ext_find? hrecords fun key contents => ?_
  rw [hblobs, find?_blobs_keep]
  refine and_congr_right fun hfind => ⟨fun hneeded => ?_, fun hnames _ => hnames⟩
  obtain ⟨id, record, hrecord, hkey⟩ := (h.named key).1 ⟨contents, hfind⟩
  rcases hrest id record hrecord with hkept | hremoved
  · exact ⟨id, record, hkept, hkey⟩
  · exact hneeded ⟨record, hremoved, hkey⟩

/-- The store without a record, and without its contents unless another record needs them. -/
def without (store : MemoryStore) (record : Attachment) : MemoryStore :=
  collectBlob { store with records := store.records.erase record.id } record.digest

theorem IsTidy.without_eq (h : store.IsTidy uploads) {record : Attachment}
    (hrecord : store.records.find? record.id = some record) :
    store.without record = store.keep (store.records.erase record.id) := by
  refine @IsTidy.collectBlobs_eq store uploads h (store.records.erase record.id) [record]
    fun other found hfound => ?_
  rw [SortedMap.find?_erase]
  by_cases hid : other = record.id
  · subst hid
    rw [hrecord, Option.some.injEq] at hfound
    exact .inr (by simp [hfound])
  · rw [if_neg hid]
    exact .inl hfound

theorem IsTidy.runIn_deleteOne (h : store.IsTidy uploads) {id : String} {record : Attachment}
    (hrecord : store.records.find? id = some record) :
    StoreM.runIn store (AttachmentStore.deleteOne id) = (.ok (), store.without record) :=
  StoreM.runIn_changeOrFail
    (by rw [deleteOne, hrecord, without, (h.records id record hrecord).1])

theorem runIn_deleteOne_unknown {id : String} (hrecord : store.records.find? id = none) :
    StoreM.runIn store (AttachmentStore.deleteOne id) = (.error (.unknownAttachment id), store) :=
  StoreM.runIn_changeOrFail_error (by rw [deleteOne, hrecord])

theorem find?_foldl_erase (removed : List Attachment) (records : SortedMap Attachment)
    (id : String) :
    (removed.foldl (fun records record => records.erase record.id) records).find? id =
      if id ∈ removed.map (·.id) then none else records.find? id := by
  induction removed generalizing records with
  | nil => simp
  | cons record removed ih =>
      rw [List.foldl_cons, ih, SortedMap.find?_erase]
      by_cases hid : id = record.id
      · simp [hid]
      · simp [hid]

/-- Whether contents are collected after each record or after all of them makes no difference. -/
theorem IsTidy.foldl_without_eq (h : store.IsTidy uploads) {removed : List Attachment}
    (hremoved : ∀ record ∈ removed, store.records.find? record.id = some record)
    (hnodup : (removed.map (·.id)).Nodup) :
    removed.foldl without store =
      store.keep (removed.foldl (fun records record => records.erase record.id) store.records) := by
  induction removed generalizing store with
  | nil => exact h.keep_self.symm
  | cons record removed ih =>
      rw [List.forall_mem_cons] at hremoved
      rw [List.map_cons, List.nodup_cons] at hnodup
      have hsub : ∀ id found, (store.records.erase record.id).find? id = some found →
          store.records.find? id = some found := fun _ _ => SortedMap.find?_of_find?_erase
      rw [List.foldl_cons, List.foldl_cons, h.without_eq hremoved.1, ih (h.keep hsub) ?_ hnodup.2,
        records_keep, keep_keep]
      · intro id found hfound
        rw [find?_foldl_erase] at hfound
        split at hfound
        · cases hfound
        · exact hfound
      · intro other hother
        have hid : other.id ≠ record.id := fun hid =>
          hnodup.1 (hid ▸ List.mem_map.2 ⟨other, hother, rfl⟩)
        rw [records_keep, SortedMap.find?_erase, if_neg hid]
        exact hremoved.2 other hother

theorem IsTidy.deleteOfNode_eq (h : store.IsTidy uploads) (nodeId : String) :
    store.deleteOfNode nodeId =
      store.keep (store.records.filter fun entry => entry.2.nodeId ≠ nodeId) := by
  refine h.collectBlobs_eq fun id record hfind => ?_
  by_cases hnode : record.nodeId = nodeId
  · refine .inr (List.mem_filter.2 ⟨SortedMap.mem_values_iff.2 ⟨id, hfind⟩, by simp [hnode]⟩)
  · refine .inl ?_
    rw [SortedMap.find?_filter, hfind]
    simp [hnode]

theorem foldl_erase_eq_filter {records : SortedMap Attachment}
    (h : ∀ id record, records.find? id = some record → record.id = id) (nodeId : String) :
    (records.values.filter fun record => record.nodeId = nodeId).foldl
        (fun records record => records.erase record.id) records =
      records.filter fun entry => entry.2.nodeId ≠ nodeId := by
  refine SortedMap.ext_find? fun id => ?_
  rw [find?_foldl_erase, SortedMap.find?_filter]
  cases hrecord : records.find? id with
  | none => simp
  | some record =>
      by_cases hnode : record.nodeId = nodeId
      · have hmem : id ∈ (records.values.filter fun record => record.nodeId = nodeId).map (·.id) :=
          List.mem_map.2 ⟨record, List.mem_filter.2 ⟨SortedMap.mem_values_iff.2 ⟨id, hrecord⟩,
            decide_eq_true hnode⟩, h id record hrecord⟩
        rw [if_pos hmem, Option.filter_some, if_neg (by simp [hnode])]
      · have hmem : id ∉
            (records.values.filter fun record => record.nodeId = nodeId).map (·.id) := by
          intro hmem
          obtain ⟨found, hfound, rfl⟩ := List.mem_map.1 hmem
          obtain ⟨hvalue, hfoundNode⟩ := List.mem_filter.1 hfound
          rw [(mem_values_iff_find?_id h).1 hvalue, Option.some.injEq] at hrecord
          exact hnode (hrecord ▸ of_decide_eq_true hfoundNode)
        rw [if_neg hmem, Option.filter_some, if_pos (by simp [hnode])]

/-- Removing the records of a node one after the other comes to removing them at once. -/
theorem IsTidy.foldl_without_eq_deleteOfNode (h : store.IsTidy uploads) (nodeId : String) :
    (store.records.values.filter fun record => record.nodeId = nodeId).foldl without store =
      store.deleteOfNode nodeId := by
  have hself : ∀ id record, store.records.find? id = some record → record.id = id :=
    fun id record hfind => (h.records id record hfind).1
  have hnodup : (store.records.values.map (·.id)).Nodup :=
    map_id_values hself ▸ store.records.keys_nodup
  rw [h.foldl_without_eq (fun record hrecord => ?_)
    (hnodup.sublist (List.filter_sublist.map _)), h.deleteOfNode_eq, foldl_erase_eq_filter hself]
  exact (mem_values_iff_find?_id hself).1 (List.mem_of_mem_filter hrecord)

end Collect

/-! ### Every step keeps a store tidy -/

section Steps

variable {store : MemoryStore} {uploads : List Upload}

theorem isTidy_empty (uploads : List Upload) : empty.IsTidy uploads := by
  refine ⟨fun id record h => ?_, fun key contents h => ?_, fun key => ?_⟩
  · simp [empty] at h
  · simp [empty] at h
  · simp [empty, Names]

theorem IsTidy.mono (h : store.IsTidy uploads) {more : List Upload} (hsub : uploads ⊆ more) :
    store.IsTidy more := by
  refine ⟨fun id record hfind => ?_, fun key contents hfind => ?_, h.named⟩
  · obtain ⟨hid, u, hu, hrecord⟩ := h.records id record hfind
    exact ⟨hid, u, hsub hu, hrecord⟩
  · obtain ⟨hkey, u, hu, hcontents⟩ := h.blobs key contents hfind
    exact ⟨hkey, u, hsub hu, hcontents⟩

theorem IsTidy.add (h : store.IsTidy uploads) {u : Upload} (hu : u ∈ uploads) :
    (store.add u.record u.contents).IsTidy uploads := by
  by_cases hcontains : store.records.contains u.record.id = true
  · rwa [add_of_contains hcontains]
  · have hnone : store.records.find? u.record.id = none := by
      simpa [SortedMap.contains] using hcontains
    have hrecords : (store.add u.record u.contents).records =
        store.records.insert u.record.id u.record := by
      rw [MemoryStore.add, if_neg hcontains]
    refine ⟨fun id record hfind => ?_, fun key contents hfind => ?_, fun key => ?_⟩
    · rw [find?_records_add hcontains] at hfind
      split at hfind
      · rename_i hid
        obtain rfl := Option.some.inj hfind
        exact ⟨hid, u, hu, rfl⟩
      · exact h.records id record hfind
    · rw [find?_blobs_add hcontains] at hfind
      split at hfind
      · rename_i hkey
        rw [← Option.some.inj hfind, ← u.digest_record]
        exact ⟨hkey.2, u, hu, rfl⟩
      · exact h.blobs key contents hfind
    · rw [hrecords, names_insert_iff hnone, ← h.named key]
      simp only [find?_blobs_add hcontains]
      cases hblob : store.blobs.contains u.record.digest.toHex with
      | true =>
          simp only [Bool.true_eq_false, false_and, if_false]
          refine ⟨.inr, fun hkey => hkey.elim (fun hkey => ?_) id⟩
          rw [← hkey]
          exact SortedMap.contains_iff.1 hblob
      | false =>
          by_cases hkey : u.record.digest.toHex = key
          · simp [hkey]
          · simp [hkey]

theorem IsTidy.without (h : store.IsTidy uploads) {record : Attachment}
    (hrecord : store.records.find? record.id = some record) :
    (store.without record).IsTidy uploads := by
  rw [h.without_eq hrecord]
  exact h.keep fun other found => SortedMap.find?_of_find?_erase

theorem next_put (name nodeId : String) (contents : ByteArray) :
    (StoreStep.request (.put name nodeId contents)).next store =
      match (StoreStep.request (.put name nodeId contents)).upload? with
      | some u => store.add u.record u.contents
      | none => store := by
  rw [StoreStep.next, StoreRequest.perform, runIn_put, StoreStep.upload?]
  split <;> rfl

theorem IsTidy.next (h : store.IsTidy uploads) (step : StoreStep)
    (hupload : step.upload?.toList ⊆ uploads) : (step.next store).IsTidy uploads := by
  cases step with
  | reopen => exact h
  | request request =>
      cases request with
      | put name nodeId contents =>
          rw [next_put]
          split
          · rename_i u hu
            exact h.add (hupload (by simp [hu]))
          · exact h
      | stat id => exact h
      | get id => exact h
      | list => exact h
      | deleteAll => exact isTidy_empty uploads
      | deleteOne id =>
          rw [StoreStep.next, StoreRequest.perform]
          cases hrecord : store.records.find? id with
          | none =>
              rw [runIn_deleteOne_unknown hrecord]
              exact h
          | some record =>
              have hid := (h.records id record hrecord).1
              rw [h.runIn_deleteOne hrecord]
              exact h.without (hid.symm ▸ hrecord)
      | deleteOfNode nodeId =>
          have hnext : (StoreStep.request (.deleteOfNode nodeId)).next store =
            store.deleteOfNode nodeId := rfl
          rw [hnext, h.deleteOfNode_eq]
          exact h.keep fun id record hfind => SortedMap.find?_of_find?_filter hfind

theorem uploadsOf_concat (steps : List StoreStep) (step : StoreStep) :
    uploadsOf (steps ++ [step]) = uploadsOf steps ++ step.upload?.toList := by
  rw [uploadsOf, List.filterMap_append, ← uploadsOf]
  cases hupload : step.upload? <;> simp [hupload]

/-- Whatever is done to a store that was empty, it is tidy. -/
theorem isTidy_afterAll (steps : List StoreStep) :
    (afterAll empty steps).IsTidy (uploadsOf steps) := by
  induction steps using List.reverseRecOn with
  | nil => exact isTidy_empty _
  | append_singleton steps step ih =>
      rw [afterAll_concat, uploadsOf_concat]
      exact (ih.mono (List.subset_append_left _ _)).next step (List.subset_append_right _ _)

end Steps

end MemoryStore

end InfraGraph
