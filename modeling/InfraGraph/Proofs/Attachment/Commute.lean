import InfraGraph.Proofs.Attachment.Lookup

/-!
# Uploads commute

What an upload does depends on what is in the store already: a record that is there is left alone,
and so are contents.  As long as digests tell apart what is uploaded, two uploads still come to the
same in both orders, whatever store they start from.  So it is of no matter in which order many
files are uploaded.
-/

namespace InfraGraph

/-- The step that uploads a file, which needn't have a valid name. -/
def Upload.step (u : Upload) : StoreStep :=
  .request (.put u.name u.nodeId u.contents)

/-- In every order some files can be uploaded with the same result.  Each upload gets the answer
that it gets if it comes first, and afterwards the same records are listed, each with the same
answer to whoever asks for its contents. -/
structure UploadsCommute {σ : Type} [ReopenableStore σ] (s : σ) (uploads : List Upload) : Prop where
  answers : ∀ order : List Upload, order.Perm uploads →
    answers s (order.map Upload.step) = order.map fun u => u.step.answer s
  list : ∃ records, ∀ order : List Upload, order.Perm uploads →
    StoreRequest.list.answer (afterAll s (order.map Upload.step)) = .ok (.records records)
  get : ∀ order : List Upload, order.Perm uploads → ∀ records,
    StoreRequest.list.answer (afterAll s (order.map Upload.step)) = .ok (.records records) →
      ∀ record ∈ records, (StoreRequest.get record.id).answer (afterAll s (order.map Upload.step)) =
        (StoreRequest.get record.id).answer (afterAll s (uploads.map Upload.step))

/-! ### Stores in memory -/

namespace MemoryStore

section Adding

variable {store : MemoryStore} {record : Attachment} {contents : ByteArray}

/-- A record that is added answers only where there was none. -/
theorem find?_records_add_eq_or (id : String) :
    (store.add record contents).records.find? id =
      (store.records.find? id).or (if record.id = id then some record else none) := by
  cases hold : store.records.find? record.id with
  | some old =>
      rw [add_of_contains (SortedMap.contains_iff.2 ⟨old, hold⟩)]
      split
      · rename_i hid
        rw [← hid, hold, Option.some_or]
      · rw [Option.or_none]
  | none =>
      rw [find?_records_add (by simp [SortedMap.contains, hold])]
      split
      · rename_i hid
        rw [← hid, hold, Option.none_or]
      · rw [Option.or_none]

/-- The same holds for contents, which are added with a new record only. -/
theorem find?_blobs_add_eq_or (key : String) :
    (store.add record contents).blobs.find? key =
      (store.blobs.find? key).or
        (if store.records.find? record.id = none ∧ record.digest.toHex = key then some contents
          else none) := by
  cases hold : store.records.find? record.id with
  | some old =>
      rw [add_of_contains (SortedMap.contains_iff.2 ⟨old, hold⟩)]
      simp
  | none =>
      rw [find?_blobs_add (by simp [SortedMap.contains, hold]), SortedMap.contains]
      by_cases hkey : record.digest.toHex = key
      · subst hkey
        cases store.blobs.find? record.digest.toHex <;> simp
      · simp [hkey]

theorem find?_records_add_eq_none_iff {id : String} :
    (store.add record contents).records.find? id = none ↔
      store.records.find? id = none ∧ record.id ≠ id := by
  rw [find?_records_add_eq_or, Option.or_eq_none_iff]
  simp

end Adding

/-- Two records are added in both orders with the same result, if the ids tell them apart and the
digests tell apart their contents. -/
theorem add_comm {store : MemoryStore} {a b : Attachment} {x y : ByteArray}
    (hid : a.id = b.id → a = b) (hdigest : a.digest.toHex = b.digest.toHex → x = y) :
    (store.add a x).add b y = (store.add b y).add a x := by
  by_cases hsame : a.id = b.id
  · obtain rfl := hid hsame
    rw [hdigest rfl]
  · have hother : b.id ≠ a.id := Ne.symm hsame
    refine ext_find? (SortedMap.ext_find? fun id => ?_) fun key contents => ?_
    · rw [find?_records_add_eq_or, find?_records_add_eq_or, find?_records_add_eq_or,
        find?_records_add_eq_or, Option.or_assoc, Option.or_assoc]
      by_cases hfirst : a.id = id
      · have hsecond : b.id ≠ id := fun h => hsame (hfirst.trans h.symm)
        rw [if_neg hsecond, Option.or_none, Option.none_or]
      · rw [if_neg hfirst, Option.or_none, Option.none_or]
    · rw [find?_blobs_add_eq_or, find?_blobs_add_eq_or, find?_blobs_add_eq_or,
        find?_blobs_add_eq_or, Option.or_assoc, Option.or_assoc]
      -- Neither record keeps the contents of the other out, so only the same key counts.
      simp only [find?_records_add_eq_none_iff, ne_eq, hsame, hother, not_false_eq_true, and_true]
      by_cases hkeys : a.digest.toHex = b.digest.toHex
      · rw [hkeys, hdigest hkeys]
        split <;> split <;> rfl
      · by_cases hfirst : a.digest.toHex = key
        · have hsecond : ¬ (store.records.find? b.id = none ∧ b.digest.toHex = key) :=
            fun h => hkeys (hfirst.trans h.2.symm)
          rw [if_neg hsecond, Option.or_none, Option.none_or]
        · have hnone : ¬ (store.records.find? a.id = none ∧ a.digest.toHex = key) :=
            fun h => hfirst h.2
          rw [if_neg hnone, Option.or_none, Option.none_or]

/-- Files are added in every order with the same result. -/
theorem addAll_perm {uploads order : List Upload} (hapart : TellApart uploads)
    (horder : order.Perm uploads) (store : MemoryStore) :
    store.addAll order = store.addAll uploads := by
  have hcomm : ∀ a ∈ order, ∀ b ∈ order, ∀ store : MemoryStore,
      (store.add a.record a.contents).add b.record b.contents =
        (store.add b.record b.contents).add a.record a.contents := by
    intro a ha b hb store
    refine @add_comm store a.record b.record a.contents b.contents (fun hid => ?_) fun hkey => ?_
    · exact congrArg Upload.record
        (hapart.records a (horder.subset ha) b (horder.subset hb) hid)
    · exact hapart.contents a (horder.subset ha) b (horder.subset hb) (ContentDigest.toHex_inj hkey)
  exact horder.foldl_eq' hcomm store

/-- Uploading files adds those of them that have valid names. -/
theorem afterAll_uploads (store : MemoryStore) (uploads : List Upload) :
    afterAll store (uploads.map Upload.step) =
      store.addAll (uploadsOf (uploads.map Upload.step)) := by
  induction uploads generalizing store with
  | nil => rfl
  | cons u rest ih =>
      have hnext := @next_put store u.name u.nodeId u.contents
      rw [List.map_cons, afterAll, List.foldl_cons, ← afterAll, ih, uploadsOf, uploadsOf,
        List.filterMap_cons]
      rw [← Upload.step] at hnext
      rw [hnext]
      cases u.step.upload? <;> rfl

/-- The answer to an upload doesn't depend on what is in a store. -/
theorem answer_step (store other : MemoryStore) (u : Upload) :
    u.step.answer store = u.step.answer other := by
  rw [Upload.step, StoreStep.answer, StoreStep.answer, StoreRequest.answer, StoreRequest.answer,
    runIn_put, runIn_put]
  split <;> rfl

theorem answers_uploads (store other : MemoryStore) (uploads : List Upload) :
    answers store (uploads.map Upload.step) = uploads.map fun u => u.step.answer other := by
  induction uploads generalizing store with
  | nil => rfl
  | cons u rest ih =>
      rw [List.map_cons, List.map_cons, answers, ih, answer_step store other]

/-- Uploads with valid names, in another order. -/
theorem uploadsOf_perm {uploads order : List Upload} (horder : order.Perm uploads) :
    (uploadsOf (order.map Upload.step)).Perm (uploadsOf (uploads.map Upload.step)) :=
  (horder.map Upload.step).filterMap StoreStep.upload?

/-- In every order the same store is left. -/
theorem afterAll_uploads_perm {uploads order : List Upload}
    (hapart : NoCollision (uploadsOf (uploads.map Upload.step))) (horder : order.Perm uploads)
    (store : MemoryStore) :
    afterAll store (order.map Upload.step) = afterAll store (uploads.map Upload.step) := by
  rw [afterAll_uploads, afterAll_uploads]
  exact addAll_perm (hapart.tellApart fun u hu => isValidName_of_mem_uploadsOf hu)
    (uploadsOf_perm horder) store

theorem uploadsCommute (store : MemoryStore) {uploads : List Upload}
    (hapart : NoCollision (uploadsOf (uploads.map Upload.step))) :
    UploadsCommute store uploads := by
  refine ⟨fun order _ => answers_uploads store store order,
    ⟨(afterAll store (uploads.map Upload.step)).records.values, fun order horder => ?_⟩,
    fun order horder records _ record _ => ?_⟩
  · rw [afterAll_uploads_perm hapart horder]
    rfl
  · rw [afterAll_uploads_perm hapart horder]

end MemoryStore

/-! ### Stores in directories -/

namespace DirectoryStore

open InfraGraph.Path

section Uploads

variable {home : List String} {store : DirectoryStore} {memory : MemoryStore}
  {uploads order : List Upload}

/-- A mirror answers an upload as the store in memory does, and stays a mirror. -/
theorem Mirrors.agree_upload (h : store.Mirrors home memory) (hhome : IsHome home) {u : Upload}
    (hsize : ∀ v ∈ u.step.upload?.toList, v.contents.size ≤ Json.maxWord) :
    u.step.answer store = u.step.answer memory ∧
      (u.step.next store).Mirrors home (u.step.next memory) := by
  have hput := h.agree_put hhome u.name u.nodeId fun hname => hsize u <| by
    simp [Upload.step, StoreStep.upload?, hname]
  exact ⟨congrArg (Except.map StoreAnswer.id) hput.answer.1, hput.answer.2⟩

theorem Mirrors.agree_uploads (h : store.Mirrors home memory) (hhome : IsHome home)
    (hsize : ∀ u ∈ uploadsOf (uploads.map Upload.step), u.contents.size ≤ Json.maxWord) :
    answers store (uploads.map Upload.step) = answers memory (uploads.map Upload.step) ∧
      (afterAll store (uploads.map Upload.step)).Mirrors home
        (afterAll memory (uploads.map Upload.step)) := by
  induction uploads generalizing store memory with
  | nil => exact ⟨rfl, h⟩
  | cons u rest ih =>
      obtain ⟨hfirst, hrest⟩ := uploadsOf_cons_subset
        (List.Subset.refl (uploadsOf (u.step :: rest.map Upload.step)))
      obtain ⟨hanswer, hnext⟩ := h.agree_upload hhome fun v hv => hsize v (hfirst hv)
      obtain ⟨hanswers, hafter⟩ := ih hnext fun v hv => hsize v (hrest hv)
      exact ⟨congrArg₂ List.cons hanswer hanswers, hafter⟩

/-- In every order the same store in memory is mirrored. -/
theorem Mirrors.afterAll_uploads_perm (h : store.Mirrors home memory) (hhome : IsHome home)
    (hsize : ∀ u ∈ uploadsOf (uploads.map Upload.step), u.contents.size ≤ Json.maxWord)
    (hapart : NoCollision (uploadsOf (uploads.map Upload.step))) (horder : order.Perm uploads) :
    (afterAll store (order.map Upload.step)).Mirrors home
      (afterAll memory (uploads.map Upload.step)) := by
  rw [← MemoryStore.afterAll_uploads_perm hapart horder]
  exact (h.agree_uploads hhome fun u hu =>
    hsize u ((MemoryStore.uploadsOf_perm horder).subset hu)).2

theorem Mirrors.answers_uploads (h : store.Mirrors home memory) (hhome : IsHome home)
    (hsize : ∀ u ∈ uploadsOf (uploads.map Upload.step), u.contents.size ≤ Json.maxWord) :
    answers store (uploads.map Upload.step) = uploads.map fun u => u.step.answer store := by
  rw [(h.agree_uploads hhome hsize).1, MemoryStore.answers_uploads memory memory]
  refine List.map_congr_left fun u hu => ?_
  have hupload := toList_upload?_subset (show u.step ∈ uploads.map Upload.step from
    List.mem_map_of_mem hu)
  exact (h.agree_upload hhome fun v hv => hsize v (hupload hv)).1.symm

/-- Under the id of a listed record a mirror has what the store in memory has. -/
theorem Mirrors.get_of_mem (h : store.Mirrors home memory) (hhome : IsHome home)
    {record : Attachment} (hrecord : record ∈ memory.records.values) :
    (StoreRequest.get record.id).answer store = (StoreRequest.get record.id).answer memory := by
  obtain ⟨id, hfind⟩ := SortedMap.mem_values_iff.1 hrecord
  obtain ⟨rfl, haddress⟩ := h.writable.id id record hfind
  exact congrArg (Except.map StoreAnswer.contents) (h.get_eq hhome haddress.isLookup)

theorem Mirrors.uploadsCommute (h : store.Mirrors home memory) (hhome : IsHome home)
    (hsize : ∀ u ∈ uploadsOf (uploads.map Upload.step), u.contents.size ≤ Json.maxWord)
    (hapart : NoCollision (uploadsOf (uploads.map Upload.step))) :
    UploadsCommute store uploads := by
  have hmirrors := fun order horder =>
    @Mirrors.afterAll_uploads_perm home store memory uploads order h hhome hsize hapart horder
  have hlist := fun order horder => answer_list ((hmirrors order horder).records_eq hhome)
  refine ⟨fun order horder => h.answers_uploads hhome fun u hu =>
    hsize u ((MemoryStore.uploadsOf_perm horder).subset hu), ⟨_, hlist⟩,
    fun order horder records hrecords record hrecord => ?_⟩
  obtain rfl := StoreAnswer.records.inj
    (Except.ok.inj ((hlist order horder).symm.trans hrecords))
  rw [(hmirrors order horder).get_of_mem hhome hrecord,
    (hmirrors uploads (List.Perm.refl uploads)).get_of_mem hhome hrecord]

end Uploads

section Steps

/-- After every sequence of steps, uploads commute in both kinds of stores, and in a directory they
leave the same files. -/
theorem uploadsCommute_afterAll (steps : List StoreStep) {uploads : List Upload}
    (hapart : NoCollision (uploadsOf (uploads.map Upload.step))) :
    UploadsCommute (afterAll MemoryStore.empty steps) uploads ∧
    ∀ {files : FileSystem} {home : List String}, IsVacant files home →
      (∀ u ∈ uploadsOf (steps ++ uploads.map Upload.step), u.contents.size ≤ Json.maxWord) →
      ∃ store, openAt files (absolute home) = .ok store ∧
        UploadsCommute (afterAll store steps) uploads ∧
        ∀ order : List Upload, order.Perm uploads → ∀ path contents,
          (afterAll (afterAll store steps) (order.map Upload.step)).files.root.kindAt
              (home ++ path) = some (.file contents) ↔
            (afterAll (afterAll store steps) (uploads.map Upload.step)).files.root.kindAt
              (home ++ path) = some (.file contents) := by
  refine ⟨MemoryStore.uploadsCommute _ hapart, fun {files home} hvacant hsize => ?_⟩
  rw [uploadsOf, List.filterMap_append, List.forall_mem_append] at hsize
  obtain ⟨store, hopen, hopened, _⟩ := hvacant.exists_openAt
  obtain ⟨memory, hmirrors⟩ := hopened.exists_mirrors_afterAll hvacant.isHome hsize.1
  refine ⟨store, hopen, hmirrors.uploadsCommute hvacant.isHome hsize.2 hapart,
    fun order horder path contents => ?_⟩
  rw [(hmirrors.afterAll_uploads_perm hvacant.isHome hsize.2 hapart horder).file,
    (hmirrors.afterAll_uploads_perm hvacant.isHome hsize.2 hapart (List.Perm.refl _)).file]

end Steps

namespace SharedContents

def plan : Upload := ⟨"vpc", "plan.txt", ⟨#[97]⟩⟩

def notes : Upload := ⟨"db", "notes.txt", ⟨#[97]⟩⟩

/-- Two files with the same contents, one of them twice, and a name that is refused. -/
def uploads : List Upload := [notes, ⟨"vpc", "a/b", ⟨#[98]⟩⟩, plan, notes]

theorem uploadsOf_uploads : uploadsOf (uploads.map Upload.step) = [notes, plan, notes] := by
  decide

theorem digest_ne :
    ContentDigest.of ⟨notes.identity.toArray⟩ ≠ ContentDigest.of ⟨plan.identity.toArray⟩ := by
  decide +kernel

theorem noCollision_uploads : NoCollision (uploadsOf (uploads.map Upload.step)) := by
  have hmem : ∀ u ∈ uploadsOf (uploads.map Upload.step), u = notes ∨ u = plan := by
    rw [uploadsOf_uploads]
    simp
  refine ⟨fun a ha b hb _ => ?_, fun a ha b hb hdigest => ?_⟩
  · rcases hmem a ha with rfl | rfl <;> rcases hmem b hb with rfl | rfl <;> rfl
  · rcases hmem a ha with rfl | rfl <;> rcases hmem b hb with rfl | rfl
    · rfl
    · exact absurd hdigest digest_ne
    · exact absurd hdigest.symm digest_ne
    · rfl

/-- One of the files is in the store already. -/
theorem uploadsCommute_uploads :
    UploadsCommute (afterAll MemoryStore.empty OneUpload.steps) uploads ∧
      ∃ store, openAt ⟨.folder [], []⟩ (absolute NewStore.home) = .ok store ∧
        UploadsCommute (afterAll store OneUpload.steps) uploads := by
  obtain ⟨hmemory, hdirectory⟩ := uploadsCommute_afterAll OneUpload.steps noCollision_uploads
  have hsize : ∀ u ∈ uploadsOf (OneUpload.steps ++ uploads.map Upload.step),
      u.contents.size ≤ Json.maxWord := by
    have huploads : uploadsOf (OneUpload.steps ++ uploads.map Upload.step) =
        [plan, notes, plan, notes] := by decide
    rw [huploads]
    simp only [List.forall_mem_cons, List.not_mem_nil, false_imp_iff, implies_true, and_true]
    decide
  obtain ⟨store, hopen, hcommute, _⟩ :=
    hdirectory (isVacant_of_bareRoot NewStore.isHome_home []) hsize
  exact ⟨hmemory, store, hopen, hcommute⟩

end SharedContents

end DirectoryStore

end InfraGraph
