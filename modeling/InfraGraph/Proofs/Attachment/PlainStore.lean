import Mathlib
import InfraGraph.Proofs.Attachment.Record
import InfraGraph.Proofs.Attachment.Tidy

/-!
# A store in memory is a set of files

The plainest store is a set of files, each with its node, its name and its contents.  As long as
digests tell apart what is uploaded, a store in memory gives exactly the answers of such a set.
-/

namespace InfraGraph

deriving instance DecidableEq for Upload

/-! ### Digests without collisions -/

/-- The bytes that the id of a file comes from. -/
def Upload.identity (u : Upload) : List UInt8 :=
  Attachment.identity u.nodeId u.name (ContentDigest.of u.contents)

/-- Two byte strings are different and have the same digest. -/
def ContentDigest.Collide (a b : ByteArray) : Prop :=
  a ≠ b ∧ ContentDigest.of a = ContentDigest.of b

/-- The digest has no collision on the contents of some files. -/
def NoContentsCollision (uploads : List Upload) : Prop :=
  ∀ a ∈ uploads, ∀ b ∈ uploads,
    ContentDigest.of a.contents = ContentDigest.of b.contents → a.contents = b.contents

/-- The digest has no collision on the contents of some files, and none on what their ids come
from. -/
structure NoCollision (uploads : List Upload) : Prop where
  contents : NoContentsCollision uploads
  identity : ∀ a ∈ uploads, ∀ b ∈ uploads,
    ContentDigest.of ⟨a.identity.toArray⟩ = ContentDigest.of ⟨b.identity.toArray⟩ →
      a.identity = b.identity

/-- The digest has a collision on two files, on the bytes that their ids come from or on their
contents. -/
def Upload.Collide (u v : Upload) : Prop :=
  ContentDigest.Collide ⟨u.identity.toArray⟩ ⟨v.identity.toArray⟩ ∨
    ContentDigest.Collide u.contents v.contents

/-- Without a collision, ids tell files with valid names apart. -/
theorem Upload.eq_or_collide {u v : Upload} (hu : Attachment.isValidName u.name = true)
    (hv : Attachment.isValidName v.name = true) (h : u.record.id = v.record.id) :
    u = v ∨ u.Collide v := by
  have hhash : ContentDigest.of ⟨u.identity.toArray⟩ = ContentDigest.of ⟨v.identity.toArray⟩ :=
    ContentDigest.toHex_inj h
  by_cases hidentity : u.identity = v.identity
  · have hlength : (ContentDigest.of u.contents).bytes.length =
        (ContentDigest.of v.contents).bytes.length := by
      rw [ContentDigest.length_bytes_of, ContentDigest.length_bytes_of]
    obtain ⟨hnode, hname, hdigest⟩ := Attachment.identity_inj hu hv hlength hidentity
    by_cases hcontents : u.contents = v.contents
    · obtain ⟨nodeId, name, contents⟩ := u
      obtain rfl : nodeId = v.nodeId := hnode
      obtain rfl : name = v.name := hname
      obtain rfl : contents = v.contents := hcontents
      exact .inl rfl
    · exact .inr (.inr ⟨hcontents, hdigest⟩)
  · refine .inr (.inl ⟨fun heq => hidentity ?_, hhash⟩)
    exact Array.toList_inj.2 (ByteArray.mk.inj heq)

theorem NoCollision.not_collide {uploads : List Upload} (h : NoCollision uploads) {u v : Upload}
    (hu : u ∈ uploads) (hv : v ∈ uploads) : ¬ u.Collide v := by
  rintro (⟨hne, hhash⟩ | ⟨hne, hhash⟩)
  · exact hne (by rw [h.identity u hu v hv hhash])
  · exact hne (h.contents u hu v hv hhash)

theorem NoCollision.tellApart {uploads : List Upload} (h : NoCollision uploads)
    (hvalid : ∀ u ∈ uploads, Attachment.isValidName u.name = true) : TellApart uploads :=
  ⟨fun a ha b hb hid =>
    (Upload.eq_or_collide (hvalid a ha) (hvalid b hb) hid).resolve_right (h.not_collide ha hb),
    h.contents⟩

theorem isValidName_of_mem_uploadsOf {steps : List StoreStep} {u : Upload}
    (h : u ∈ uploadsOf steps) : Attachment.isValidName u.name = true := by
  obtain ⟨step, _, hupload⟩ := List.mem_filterMap.1 h
  cases step with
  | reopen => cases hupload
  | request request =>
      cases request with
      | put name nodeId contents =>
          rw [StoreStep.upload?] at hupload
          split at hupload
          · rename_i hname
            rw [← Option.some.inj hupload]
            exact hname
          · cases hupload
      | _ => cases hupload

/-! ### Sets of files -/

/-- A store that is a set of files. -/
structure PlainStore where
  files : List Upload
  nodup : files.Nodup

namespace PlainStore

def empty : PlainStore := ⟨[], List.nodup_nil⟩

/-- The store with a file. -/
def add (store : PlainStore) (u : Upload) : PlainStore :=
  ⟨store.files.insert u, store.nodup.insert⟩

/-- The file with an id. -/
def file? (store : PlainStore) (id : String) : Option Upload :=
  store.files.find? fun u => u.record.id = id

theorem mem_of_file? {store : PlainStore} {id : String} {u : Upload} (h : store.file? id = some u) :
    u ∈ store.files ∧ u.record.id = id :=
  ⟨List.mem_of_find?_eq_some h,
    of_decide_eq_true (List.find?_some (p := fun v : Upload => decide (v.record.id = id)) h)⟩

/-- The store without a file. -/
def without (store : PlainStore) (u : Upload) : PlainStore :=
  ⟨store.files.erase u, store.nodup.erase u⟩

/-- The store without the files of a node. -/
def withoutNode (store : PlainStore) (nodeId : String) : PlainStore :=
  ⟨store.files.filter fun u => u.nodeId ≠ nodeId, store.nodup.filter _⟩

def deleteOne (store : PlainStore) (id : String) : Except StoreError PlainStore :=
  match store.file? id with
  | some u => .ok (store.without u)
  | none => .error (.unknownAttachment id)

instance : ReopenableStore PlainStore where
  put name nodeId contents := do
    liftExcept (Attachment.checkName name)
    let u : Upload := ⟨nodeId, name, contents⟩
    StoreM.change fun store => store.add u
    return u.record.id
  stat id := StoreM.look fun store => .ok ((store.file? id).map Upload.record)
  get id := StoreM.look fun store => .ok ((store.file? id).map Upload.contents)
  list := StoreM.look fun store =>
    .ok ((store.files.map Upload.record).mergeSort fun a b => a.id ≤ b.id)
  deleteAll := StoreM.change fun _ => empty
  deleteOne id := StoreM.changeOrFail fun store => store.deleteOne id
  deleteOfNode nodeId := StoreM.change fun store => store.withoutNode nodeId
  reopen := pure ()

/-! ### What a store in memory stands for -/

/-- The records of a store in memory are those of a set of files. -/
structure IsKeptBy (plain : PlainStore) (uploads : List Upload) (memory : MemoryStore) : Prop where
  tidy : memory.IsTidy uploads
  subset : plain.files ⊆ uploads
  records : ∀ id record, memory.records.find? id = some record ↔
    ∃ u ∈ plain.files, u.record = record ∧ record.id = id

section IsKeptBy

variable {plain : PlainStore} {uploads : List Upload} {memory : MemoryStore}

theorem isKeptBy_empty (uploads : List Upload) : empty.IsKeptBy uploads MemoryStore.empty :=
  ⟨MemoryStore.isTidy_empty uploads, List.nil_subset _, fun id record => by
    simp [MemoryStore.empty, empty]⟩

theorem IsKeptBy.file?_eq_some_iff (h : plain.IsKeptBy uploads memory) (hapart : TellApart uploads)
    {id : String} {u : Upload} :
    plain.file? id = some u ↔ u ∈ plain.files ∧ u.record.id = id := by
  refine ⟨mem_of_file?, ?_⟩
  rintro ⟨hu, rfl⟩
  cases hfile : plain.file? u.record.id with
  | none =>
      have hnone := List.find?_eq_none.1 hfile u hu
      exact absurd (decide_eq_true rfl) hnone
  | some v =>
      obtain ⟨hv, hid⟩ := mem_of_file? hfile
      rw [hapart.records v (h.subset hv) u (h.subset hu) hid]

theorem IsKeptBy.find?_eq (h : plain.IsKeptBy uploads memory) (hapart : TellApart uploads)
    (id : String) : memory.records.find? id = (plain.file? id).map Upload.record := by
  refine Option.ext fun record => ?_
  rw [h.records, Option.map_eq_some_iff]
  constructor
  · rintro ⟨u, hu, rfl, hid⟩
    exact ⟨u, (h.file?_eq_some_iff hapart).2 ⟨hu, hid⟩, rfl⟩
  · rintro ⟨u, hfile, rfl⟩
    obtain ⟨hu, hid⟩ := (h.file?_eq_some_iff hapart).1 hfile
    exact ⟨u, hu, rfl, hid⟩

/-- The contents under the digest of a file are those of the file. -/
theorem IsKeptBy.find?_blobs_eq (h : plain.IsKeptBy uploads memory) (hapart : TellApart uploads)
    {u : Upload} (hu : u ∈ plain.files) :
    memory.blobs.find? u.record.digest.toHex = some u.contents := by
  obtain ⟨contents, hblob⟩ := (h.tidy.named u.record.digest.toHex).2
    ⟨u.record.id, u.record, (h.records _ _).2 ⟨u, hu, rfl, rfl⟩, rfl⟩
  obtain ⟨hdigest, v, hv, rfl⟩ := h.tidy.blobs _ _ hblob
  rw [hblob, hapart.contents v hv u (h.subset hu) (ContentDigest.toHex_inj hdigest)]

theorem IsKeptBy.get_eq (h : plain.IsKeptBy uploads memory) (hapart : TellApart uploads)
    (id : String) : memory.get id = .ok ((plain.file? id).map Upload.contents) := by
  rw [MemoryStore.get, h.find?_eq hapart]
  cases hfile : plain.file? id with
  | none => rfl
  | some u =>
      have hblob := h.find?_blobs_eq hapart ((h.file?_eq_some_iff hapart).1 hfile).1
      simp only [Option.map_some, hblob]

theorem IsKeptBy.values_eq (h : plain.IsKeptBy uploads memory) (hapart : TellApart uploads) :
    ((plain.files.map Upload.record).mergeSort fun a b => a.id ≤ b.id) =
      memory.records.values := by
  have hnodup : (plain.files.map Upload.record).Nodup := by
    refine List.Nodup.map_on (fun a ha b hb hrecord => ?_) plain.nodup
    exact hapart.records a (h.subset ha) b (h.subset hb) (congrArg Attachment.id hrecord)
  refine mergeSort_eq_values (fun id record hfind => (h.tidy.records id record hfind).1) hnodup
    fun record => ?_
  rw [h.records, List.mem_map]
  exact exists_congr fun u => and_congr_right fun _ => (and_iff_left rfl).symm

theorem IsKeptBy.add (h : plain.IsKeptBy uploads memory) (hapart : TellApart uploads) {u : Upload}
    (hu : u ∈ uploads) : (plain.add u).IsKeptBy uploads (memory.add u.record u.contents) := by
  refine ⟨h.tidy.add hu, fun v hv => ?_, fun id record => ?_⟩
  · rcases List.mem_insert_iff.1 hv with rfl | hv
    · exact hu
    · exact h.subset hv
  · have hmem : ∀ v, v ∈ (plain.add u).files ↔ v = u ∨ v ∈ plain.files := fun v =>
      List.mem_insert_iff
    simp only [hmem]
    by_cases hcontains : memory.records.contains u.record.id = true
    · rw [MemoryStore.add_of_contains hcontains, h.records]
      obtain ⟨old, hold⟩ := SortedMap.contains_iff.1 hcontains
      obtain ⟨v, hv, rfl, hid⟩ := (h.records _ _).1 hold
      obtain rfl := hapart.records v (h.subset hv) u hu hid
      have hsame : ∀ w, w = v ∨ w ∈ plain.files ↔ w ∈ plain.files := fun w =>
        or_iff_right_of_imp fun heq => heq ▸ hv
      simp only [hsame]
    · rw [MemoryStore.find?_records_add hcontains]
      have hnone : memory.records.find? u.record.id = none := by
        simpa [SortedMap.contains] using hcontains
      constructor
      · intro hfind
        split at hfind
        · rename_i hid
          obtain rfl := Option.some.inj hfind
          exact ⟨u, .inl rfl, rfl, hid⟩
        · obtain ⟨v, hv, hrecord⟩ := (h.records _ _).1 hfind
          exact ⟨v, .inr hv, hrecord⟩
      · rintro ⟨v, rfl | hv, rfl, rfl⟩
        · exact if_pos rfl
        · have hfind := (h.records _ _).2 ⟨v, hv, rfl, rfl⟩
          split
          · rename_i hid
            rw [hid, hfind] at hnone
            cases hnone
          · exact hfind

theorem IsKeptBy.without (h : plain.IsKeptBy uploads memory) (hapart : TellApart uploads)
    {u : Upload} (hu : u ∈ plain.files) :
    (plain.without u).IsKeptBy uploads (memory.without u.record) := by
  have hrecord := (h.records _ _).2 ⟨u, hu, rfl, rfl⟩
  refine ⟨h.tidy.without hrecord, fun v hv => h.subset (List.mem_of_mem_erase hv),
    fun id record => ?_⟩
  have hmem : ∀ v, v ∈ (plain.without u).files ↔ v ≠ u ∧ v ∈ plain.files := fun v =>
    plain.nodup.mem_erase_iff
  rw [MemoryStore.without, MemoryStore.records_collectBlob, SortedMap.find?_erase]
  simp only [hmem]
  constructor
  · intro hfind
    split at hfind
    · cases hfind
    · rename_i hid
      obtain ⟨v, hv, rfl, rfl⟩ := (h.records _ _).1 hfind
      exact ⟨v, ⟨fun heq => hid (by rw [heq]), hv⟩, rfl, rfl⟩
  · rintro ⟨v, ⟨hne, hv⟩, rfl, rfl⟩
    have hid : v.record.id ≠ u.record.id := fun hid =>
      hne (hapart.records v (h.subset hv) u (h.subset hu) hid)
    rw [if_neg hid]
    exact (h.records _ _).2 ⟨v, hv, rfl, rfl⟩

theorem IsKeptBy.withoutNode (h : plain.IsKeptBy uploads memory) (nodeId : String) :
    (plain.withoutNode nodeId).IsKeptBy uploads (memory.deleteOfNode nodeId) := by
  rw [h.tidy.deleteOfNode_eq]
  refine ⟨h.tidy.keep fun id record => SortedMap.find?_of_find?_filter,
    fun v hv => h.subset (List.mem_of_mem_filter hv), fun id record => ?_⟩
  have hmem : ∀ v, v ∈ (plain.withoutNode nodeId).files ↔
      v ∈ plain.files ∧ decide (v.nodeId ≠ nodeId) = true := fun v => List.mem_filter
  rw [MemoryStore.records_keep, SortedMap.find?_filter, Option.filter_eq_some_iff, h.records]
  simp only [hmem]
  constructor
  · rintro ⟨⟨v, hv, rfl, rfl⟩, hnode⟩
    exact ⟨v, ⟨hv, hnode⟩, rfl, rfl⟩
  · rintro ⟨v, ⟨hv, hnode⟩, rfl, rfl⟩
    exact ⟨⟨v, hv, rfl, rfl⟩, hnode⟩

end IsKeptBy

/-! ### Answers -/

section Answers

variable {plain : PlainStore} {uploads : List Upload} {memory : MemoryStore}

theorem runIn_put (name nodeId : String) (contents : ByteArray) :
    StoreM.runIn plain (AttachmentStore.put name nodeId contents) =
      if Attachment.isValidName name then
        (.ok (Attachment.ofFile name nodeId contents).id, plain.add ⟨nodeId, name, contents⟩)
      else (.error (.invalidName name), plain) := by
  by_cases hvalid : Attachment.isValidName name = true
  · have hname : Attachment.checkName name = .ok () := by simp [Attachment.checkName, hvalid]
    simp only [AttachmentStore.put, hname, hvalid, if_true]
    rfl
  · have hname : Attachment.checkName name = .error (.invalidName name) := by
      simp [Attachment.checkName, hvalid]
    simp only [AttachmentStore.put, hname, hvalid]
    rfl

theorem IsKeptBy.agree_put (h : plain.IsKeptBy uploads memory) (hapart : TellApart uploads)
    (name nodeId : String) (contents : ByteArray)
    (hupload : (StoreStep.request (.put name nodeId contents)).upload?.toList ⊆ uploads) :
    (StoreM.runIn memory (AttachmentStore.put name nodeId contents)).1 =
        (StoreM.runIn plain (AttachmentStore.put name nodeId contents)).1 ∧
      IsKeptBy (StoreM.runIn plain (AttachmentStore.put name nodeId contents)).2 uploads
        (StoreM.runIn memory (AttachmentStore.put name nodeId contents)).2 := by
  rw [MemoryStore.runIn_put, runIn_put]
  rw [StoreStep.upload?] at hupload
  by_cases hvalid : Attachment.isValidName name = true
  · simp only [if_pos hvalid] at hupload ⊢
    exact ⟨trivial, h.add hapart (hupload (by simp))⟩
  · rw [if_neg hvalid, if_neg hvalid]
    exact ⟨rfl, h⟩

theorem IsKeptBy.agree_deleteOne (h : plain.IsKeptBy uploads memory) (hapart : TellApart uploads)
    (id : String) :
    (StoreM.runIn memory (AttachmentStore.deleteOne id)).1 =
        (StoreM.runIn plain (AttachmentStore.deleteOne id)).1 ∧
      IsKeptBy (StoreM.runIn plain (AttachmentStore.deleteOne id)).2 uploads
        (StoreM.runIn memory (AttachmentStore.deleteOne id)).2 := by
  have hfind := h.find?_eq hapart id
  cases hfile : plain.file? id with
  | none =>
      rw [hfile] at hfind
      have hplain : StoreM.runIn plain (AttachmentStore.deleteOne id) =
          (.error (.unknownAttachment id), plain) :=
        StoreM.runIn_changeOrFail_error (by rw [deleteOne, hfile])
      rw [MemoryStore.runIn_deleteOne_unknown hfind, hplain]
      exact ⟨rfl, h⟩
  | some u =>
      rw [hfile] at hfind
      have hplain : StoreM.runIn plain (AttachmentStore.deleteOne id) =
          (.ok (), plain.without u) :=
        StoreM.runIn_changeOrFail (by rw [deleteOne, hfile])
      rw [h.tidy.runIn_deleteOne hfind, hplain]
      exact ⟨rfl, h.without hapart (mem_of_file? hfile).1⟩

/-- A store in memory answers a step as the set of its files does, and goes on to be kept by it. -/
theorem IsKeptBy.agree (h : plain.IsKeptBy uploads memory) (hapart : TellApart uploads)
    {step : StoreStep} (hupload : step.upload?.toList ⊆ uploads) :
    step.answer memory = step.answer plain ∧
      (step.next plain).IsKeptBy uploads (step.next memory) := by
  cases step with
  | reopen => exact ⟨rfl, h⟩
  | request request =>
      cases request with
      | put name nodeId contents =>
          obtain ⟨hanswer, hnext⟩ := h.agree_put hapart name nodeId contents hupload
          exact ⟨congrArg (Except.map StoreAnswer.id) hanswer, hnext⟩
      | stat id =>
          exact ⟨congrArg (fun record => Except.ok (StoreAnswer.record record))
            (h.find?_eq hapart id), h⟩
      | get id => exact ⟨congrArg (Except.map StoreAnswer.contents) (h.get_eq hapart id), h⟩
      | list =>
          exact ⟨congrArg (fun records => Except.ok (StoreAnswer.records records))
            (h.values_eq hapart).symm, h⟩
      | deleteAll => exact ⟨rfl, isKeptBy_empty uploads⟩
      | deleteOne id =>
          obtain ⟨hanswer, hnext⟩ := h.agree_deleteOne hapart id
          exact ⟨congrArg (Except.map fun _ => StoreAnswer.done) hanswer, hnext⟩
      | deleteOfNode nodeId => exact ⟨rfl, h.withoutNode nodeId⟩

/-- As long as digests don't collide, a store in memory is a set of files. -/
theorem answers_empty_eq {steps : List StoreStep} (h : NoCollision (uploadsOf steps)) :
    answers MemoryStore.empty steps = answers empty steps := by
  have hapart := h.tellApart fun u => isValidName_of_mem_uploadsOf
  exact @answers_eq_of_alike _ _ _ _ (fun memory plain => plain.IsKeptBy (uploadsOf steps) memory)
    (fun step => step.upload?.toList ⊆ uploadsOf steps)
    (fun memory plain step hkept hupload => hkept.agree hapart hupload) _ _ (isKeptBy_empty _) steps
    fun step hstep => toList_upload?_subset hstep

end Answers

end PlainStore

end InfraGraph
