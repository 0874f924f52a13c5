import InfraGraph.Attachment.Memory
import InfraGraph.Proofs.SortedMap
import InfraGraph.Proofs.Text.Hex

/-!
# Stores in memory keep what records need

Contents are shared by all records with their digest, and are taken away with the last of these.  So
in every state that a store in memory can get into, the contents of each record are there, and an
attachment can be had back exactly when it has a record.
-/

namespace InfraGraph

/-- What can be asked of a store of attachments. -/
inductive StoreRequest where
  | put (name nodeId : String) (contents : ByteArray)
  | stat (id : String)
  | get (id : String)
  | list
  | deleteAll
  | deleteOne (id : String)
  | deleteOfNode (nodeId : String)

/-- The state that a request leaves, whether it is answered or fails. -/
def StoreRequest.perform {σ : Type} [AttachmentStore σ] (s : σ) : StoreRequest → σ
  | put name nodeId contents => (StoreM.runIn s (AttachmentStore.put name nodeId contents)).2
  | stat id => (StoreM.runIn s (AttachmentStore.stat id)).2
  | get id => (StoreM.runIn s (AttachmentStore.get id)).2
  | list => (StoreM.runIn s AttachmentStore.list).2
  | deleteAll => (StoreM.runIn s AttachmentStore.deleteAll).2
  | deleteOne id => (StoreM.runIn s (AttachmentStore.deleteOne id)).2
  | deleteOfNode nodeId => (StoreM.runIn s (AttachmentStore.deleteOfNode nodeId)).2

namespace MemoryStore

/-- The states that a store in memory can get into. -/
inductive IsReachable : MemoryStore → Prop
  | empty : IsReachable empty
  | step (request : StoreRequest) {store : MemoryStore} (h : IsReachable store) :
      IsReachable (request.perform store)

/-- The contents of every record are there. -/
def IsSound (store : MemoryStore) : Prop :=
  ∀ id record, store.records.find? id = some record →
    ∃ contents, store.blobs.find? record.digest.toHex = some contents

section Adding

variable {store : MemoryStore} {record : Attachment} {contents : ByteArray}

theorem add_of_contains (h : store.records.contains record.id = true) :
    store.add record contents = store := by
  rw [add, if_pos h]

theorem find?_records_add (h : ¬ store.records.contains record.id = true) (id : String) :
    (store.add record contents).records.find? id =
      if record.id = id then some record else store.records.find? id := by
  rw [add, if_neg h]
  exact SortedMap.find?_insert _ _ _ _

/-- Contents are kept under their digest, unless some are there already. -/
theorem find?_blobs_add (h : ¬ store.records.contains record.id = true) (key : String) :
    (store.add record contents).blobs.find? key =
      if store.blobs.contains record.digest.toHex = false ∧ record.digest.toHex = key then
        some contents
      else store.blobs.find? key := by
  rw [add, if_neg h]
  cases hblob : store.blobs.contains record.digest.toHex with
  | true => simp [hblob]
  | false => simp [hblob, SortedMap.find?_insert]

end Adding

section Soundness

variable {store : MemoryStore}

theorem isSound_empty : IsSound empty := by
  intro id record h
  simp [empty] at h

theorem IsSound.add (h : store.IsSound) (record : Attachment) (contents : ByteArray) :
    (store.add record contents).IsSound := by
  by_cases hcontains : store.records.contains record.id = true
  · rw [add_of_contains hcontains]
    exact h
  · intro id other hfind
    -- The contents that were there are still there, and those of the new record as well.
    have hkept : ∀ key old, store.blobs.find? key = some old →
        ∃ new, (store.add record contents).blobs.find? key = some new := by
      intro key old hold
      rw [find?_blobs_add hcontains]
      split
      · exact ⟨contents, rfl⟩
      · exact ⟨old, hold⟩
    rw [find?_records_add hcontains] at hfind
    by_cases hid : record.id = id
    · rw [if_pos hid, Option.some.injEq] at hfind
      subst hfind
      cases hblob : store.blobs.contains record.digest.toHex with
      | true =>
          obtain ⟨old, hold⟩ := SortedMap.contains_iff.1 hblob
          exact hkept _ old hold
      | false =>
          rw [find?_blobs_add hcontains, if_pos ⟨hblob, rfl⟩]
          exact ⟨contents, rfl⟩
    · rw [if_neg hid] at hfind
      obtain ⟨old, hold⟩ := h id other hfind
      exact hkept _ old hold

/-- Taking records away leaves those contents there that others need. -/
theorem IsSound.of_records {records : SortedMap Attachment} (h : store.IsSound)
    (hsub : ∀ id record, records.find? id = some record → store.records.find? id = some record) :
    IsSound { store with records := records } :=
  fun id record hfind => h id record (hsub id record hfind)

theorem IsSound.collectBlob (h : store.IsSound) (digest : ContentDigest) :
    (store.collectBlob digest).IsSound := by
  unfold MemoryStore.collectBlob
  split
  · exact h
  · rename_i hunused
    intro id record hfind
    obtain ⟨contents, hcontents⟩ := h id record hfind
    refine ⟨contents, ?_⟩
    have hother : record.digest.toHex ≠ digest.toHex := by
      intro hsame
      refine hunused (List.any_eq_true.2 ⟨record, SortedMap.mem_values_iff.2 ⟨id, hfind⟩, ?_⟩)
      simpa using ContentDigest.toHex_inj hsame
    rw [SortedMap.find?_erase, if_neg hother]
    exact hcontents

theorem IsSound.deleteOne {next : MemoryStore} {id : String} (h : store.IsSound)
    (hnext : store.deleteOne id = .ok next) : next.IsSound := by
  unfold MemoryStore.deleteOne at hnext
  split at hnext
  · simp at hnext
  · obtain rfl := Except.ok.inj hnext
    refine IsSound.collectBlob (h.of_records fun other record hfind => ?_) _
    rw [SortedMap.find?_erase] at hfind
    split at hfind
    · simp at hfind
    · exact hfind

theorem IsSound.deleteOfNode (h : store.IsSound) (nodeId : String) :
    (store.deleteOfNode nodeId).IsSound := by
  have hcollect : ∀ (removed : List Attachment) (s : MemoryStore), s.IsSound →
      (removed.foldl (fun s record => s.collectBlob record.digest) s).IsSound := by
    intro removed
    induction removed with
    | nil => exact fun s hs => hs
    | cons record removed ih => exact fun s hs => ih _ (hs.collectBlob record.digest)
  refine hcollect _ _ (h.of_records fun id record hfind => ?_)
  exact SortedMap.find?_of_find?_filter hfind

/-- Uploading a file adds its record, unless the name is refused. -/
theorem runIn_put (name nodeId : String) (contents : ByteArray) :
    StoreM.runIn store (AttachmentStore.put name nodeId contents) =
      if Attachment.isValidName name then
        (.ok (Attachment.ofFile name nodeId contents).id,
          store.add (Attachment.ofFile name nodeId contents) contents)
      else (.error (.invalidName name), store) := by
  by_cases hvalid : Attachment.isValidName name = true
  · have hname : Attachment.checkName name = .ok () := by simp [Attachment.checkName, hvalid]
    simp only [AttachmentStore.put, hname, hvalid, if_true]
    rfl
  · have hname : Attachment.checkName name = .error (.invalidName name) := by
      simp [Attachment.checkName, hvalid]
    simp only [AttachmentStore.put, hname, hvalid]
    rfl

theorem IsSound.perform (h : store.IsSound) (request : StoreRequest) :
    (request.perform store).IsSound := by
  cases request with
  | put name nodeId contents =>
      rw [StoreRequest.perform, runIn_put]
      split
      · exact h.add _ contents
      · exact h
  | stat id => exact h
  | get id => exact h
  | list => exact h
  | deleteAll => exact isSound_empty
  | deleteOne id =>
      rw [StoreRequest.perform, StoreM.runIn]
      simp only [AttachmentStore.deleteOne, StoreM.changeOrFail, ExceptT.run, ExceptT.mk,
        StateT.run]
      cases hnext : store.deleteOne id with
      | ok next => exact h.deleteOne hnext
      | error e => exact h
  | deleteOfNode nodeId => exact h.deleteOfNode nodeId

theorem IsReachable.isSound (h : store.IsReachable) : store.IsSound := by
  induction h with
  | empty => exact isSound_empty
  | step request _ ih => exact ih.perform request

/-- A sound store gives contents back for exactly the ids of its records. -/
theorem IsSound.exists_get_iff (h : store.IsSound) {id : String} :
    (∃ contents, store.get id = .ok (some contents)) ↔
      ∃ record, store.records.find? id = some record := by
  unfold MemoryStore.get
  cases hrecord : store.records.find? id with
  | none => simp
  | some record =>
      obtain ⟨contents, hcontents⟩ := h id record hrecord
      simp [hcontents]

end Soundness

end MemoryStore

end InfraGraph
