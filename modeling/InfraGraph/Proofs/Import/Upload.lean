import Mathlib.Data.List.Induction
import InfraGraph.Import.Tree
import InfraGraph.Proofs.Attachment.Memory

/-!
# Uploads to a new store

The files of a scan are put into a store one after the other.  A store in memory that was empty
before then has a record for each of them, and gives back their contents as long as digests tell
them apart.
-/

namespace InfraGraph

/-- The record of a file that is to be attached. -/
def Upload.record (upload : Upload) : Attachment :=
  Attachment.ofFile upload.name upload.nodeId upload.contents

/-- The digests that are computed for some files tell them apart. -/
structure TellApart (uploads : List Upload) : Prop where
  records : ∀ a ∈ uploads, ∀ b ∈ uploads, a.record.id = b.record.id → a = b
  contents : ∀ a ∈ uploads, ∀ b ∈ uploads, a.record.digest = b.record.digest →
    a.contents = b.contents

theorem StoreM.runIn_bind {σ α β : Type} (s : σ) (x : StoreM σ α) (f : α → StoreM σ β) :
    StoreM.runIn s (x >>= f) =
      match StoreM.runIn s x with
      | (.ok a, t) => StoreM.runIn t (f a)
      | (.error e, t) => (.error e, t) := by
  rw [StoreM.runIn, ExceptT.run_bind]
  cases hx : StoreM.runIn s x with
  | mk result t =>
      have hrun : StateT.run (ExceptT.run x) s = (result, t) := hx
      rw [StateT.run_bind, hrun]
      cases result <;> rfl

theorem TellApart.of_append {front back : List Upload} (h : TellApart (front ++ back)) :
    TellApart front :=
  ⟨fun a ha b hb => h.records a (List.mem_append_left _ ha) b (List.mem_append_left _ hb),
    fun a ha b hb => h.contents a (List.mem_append_left _ ha) b (List.mem_append_left _ hb)⟩

namespace MemoryStore

/-- Adds files one after the other. -/
def addAll (store : MemoryStore) (uploads : List Upload) : MemoryStore :=
  uploads.foldl (fun store upload => store.add upload.record upload.contents) store

section Uploads

variable {store : MemoryStore} {uploads added : List Upload}

/-- Nothing keeps files with valid names from being put into a store in memory. -/
theorem runIn_uploadAll (h : ∀ u ∈ uploads, Attachment.isValidName u.name = true) :
    StoreM.runIn store (uploadAll uploads) = (.ok (), store.addAll uploads) := by
  induction uploads generalizing store with
  | nil => rfl
  | cons first rest ih =>
      rw [List.forall_mem_cons] at h
      have hput := @runIn_put store first.name first.nodeId first.contents
      rw [h.1, if_pos rfl] at hput
      have hrest := @ih (store.add first.record first.contents) h.2
      rw [uploadAll, List.forM, StoreM.runIn_bind, StoreM.runIn_bind, hput]
      exact hrest

/-- A store that was empty before some files were added. -/
structure HoldsUploads (store : MemoryStore) (added : List Upload) : Prop where
  records : ∀ id, (∃ record, store.records.find? id = some record) ↔
    ∃ u ∈ added, u.record.id = id
  blobs : ∀ key contents, store.blobs.find? key = some contents →
    ∃ u ∈ added, u.record.digest.toHex = key ∧ u.contents = contents
  found : ∀ u ∈ added, TellApart added → store.records.find? u.record.id = some u.record ∧
    store.blobs.find? u.record.digest.toHex = some u.contents

theorem holdsUploads_empty : HoldsUploads empty [] :=
  ⟨fun id => by simp [empty], fun key contents h => by simp [empty] at h, fun u hu => by cases hu⟩

/-- A file whose record is there already changes nothing. -/
theorem HoldsUploads.concat_of_mem (h : HoldsUploads store added) {u other : Upload}
    (hother : other ∈ added) (hsame : other.record.id = u.record.id) :
    HoldsUploads store (added ++ [u]) := by
  refine ⟨fun id => ?_, fun key contents hfind => ?_, fun v hv hapart => ?_⟩
  · rw [h.records id]
    constructor
    · intro ⟨v, hv, hid⟩
      exact ⟨v, List.mem_append_left _ hv, hid⟩
    · intro ⟨v, hv, hid⟩
      rcases List.mem_append.1 hv with hv | hv
      · exact ⟨v, hv, hid⟩
      · rw [List.mem_singleton.1 hv] at hid
        exact ⟨other, hother, hsame.trans hid⟩
  · obtain ⟨v, hv, hblob⟩ := h.blobs key contents hfind
    exact ⟨v, List.mem_append_left _ hv, hblob⟩
  · rcases List.mem_append.1 hv with hv | hv
    · exact h.found v hv hapart.of_append
    · have heq := hapart.records other (List.mem_append_left _ hother) u (by simp) hsame
      rw [List.mem_singleton.1 hv, ← heq]
      exact h.found other hother hapart.of_append

/-- After a file was added its contents are there, be it because another file has the same. -/
theorem HoldsUploads.find?_blobs_add (h : HoldsUploads store added) {u v : Upload}
    (hcontains : ¬ store.records.contains u.record.id = true) (hv : v ∈ added ++ [u])
    (hapart : TellApart (added ++ [u])) :
    (store.add u.record u.contents).blobs.find? v.record.digest.toHex = some v.contents := by
  rw [MemoryStore.find?_blobs_add hcontains]
  split
  · rename_i hkey
    exact congrArg some (hapart.contents u (by simp) v hv (ContentDigest.toHex_inj hkey.2))
  · rename_i hkey
    rcases List.mem_append.1 hv with hv | hv
    · exact (h.found v hv hapart.of_append).2
    · obtain rfl : v = u := List.mem_singleton.1 hv
      have hblob : store.blobs.contains v.record.digest.toHex = true := by
        simpa using hkey
      obtain ⟨contents, hcontents⟩ := SortedMap.contains_iff.1 hblob
      obtain ⟨other, hother, hdigest, rfl⟩ := h.blobs _ _ hcontents
      rw [hcontents]
      exact congrArg some (hapart.contents other (List.mem_append_left _ hother) v (by simp)
        (ContentDigest.toHex_inj hdigest))

theorem HoldsUploads.add (h : HoldsUploads store added) (u : Upload) :
    HoldsUploads (store.add u.record u.contents) (added ++ [u]) := by
  by_cases hcontains : store.records.contains u.record.id = true
  · obtain ⟨other, hother, hsame⟩ := (h.records _).1 (SortedMap.contains_iff.1 hcontains)
    rw [add_of_contains hcontains]
    exact h.concat_of_mem hother hsame
  · refine ⟨fun id => ?_, fun key contents hfind => ?_, fun v hv hapart => ⟨?_, ?_⟩⟩
    · rw [find?_records_add hcontains]
      by_cases hid : u.record.id = id
      · rw [if_pos hid]
        exact iff_of_true ⟨_, rfl⟩ ⟨u, by simp, hid⟩
      · rw [if_neg hid, h.records id]
        simp [List.mem_append, or_and_right, exists_or, hid]
    · rw [MemoryStore.find?_blobs_add hcontains] at hfind
      split at hfind
      · rename_i hkey
        exact ⟨u, by simp, hkey.2, Option.some.inj hfind⟩
      · obtain ⟨v, hv, hblob⟩ := h.blobs key contents hfind
        exact ⟨v, List.mem_append_left _ hv, hblob⟩
    · rw [find?_records_add hcontains]
      by_cases hid : u.record.id = v.record.id
      · rw [if_pos hid, hapart.records u (by simp) v hv hid]
      · rw [if_neg hid]
        rcases List.mem_append.1 hv with hv | hv
        · exact (h.found v hv hapart.of_append).1
        · exact absurd (by rw [List.mem_singleton.1 hv]) hid
    · exact h.find?_blobs_add hcontains hv hapart

theorem holdsUploads_addAll (uploads : List Upload) :
    HoldsUploads (empty.addAll uploads) uploads := by
  induction uploads using List.reverseRecOn with
  | nil => exact holdsUploads_empty
  | append_singleton front last ih =>
      rw [addAll, List.foldl_append]
      exact ih.add last

/-- What was added can be had back. -/
theorem HoldsUploads.get (h : HoldsUploads store added) (hapart : TellApart added) {u : Upload}
    (hu : u ∈ added) : store.get u.record.id = .ok (some u.contents) := by
  obtain ⟨hrecord, hblob⟩ := h.found u hu hapart
  rw [MemoryStore.get, hrecord]
  simp only [hblob]

/-- Different files have records of their own, and there are no others. -/
theorem HoldsUploads.perm_keys (h : HoldsUploads store added) (hapart : TellApart added)
    (hnodup : added.Nodup) : (added.map fun u => u.record.id).Perm store.records.keys := by
  have hids : (added.map fun u => u.record.id).Nodup :=
    (List.nodup_map_iff_inj_on hnodup).2 hapart.records
  refine (List.perm_ext_iff_of_nodup hids store.records.keys_nodup).2 fun id => ?_
  rw [SortedMap.mem_keys_iff, h.records id, List.mem_map]

end Uploads

end MemoryStore

end InfraGraph
