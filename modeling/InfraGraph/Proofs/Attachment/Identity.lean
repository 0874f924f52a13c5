import InfraGraph.Proofs.Attachment.Commute

/-!
# One id, one file

An id is derived from a node, a name and a digest, with a zero byte behind each of the first two.
Ids of nodes and digests may have zero bytes themselves.  The three can be read off all the same,
from the end: a digest has a fixed length, and what comes before it up to the last zero byte is the
name, which has none.  So an upload gets the id of a record that was made for another file only if
the digest has a collision on these two files.
-/

namespace InfraGraph

/-! ### What the conditions are for -/

theorem Text.bytes_append_zero (front back : String) :
    bytes (front ++ "\x00" ++ back) = bytes front ++ 0 :: bytes back := by
  have hzero : bytes "\x00" = [0] := by decide
  have happend (a b : String) : bytes (a ++ b) = bytes a ++ bytes b := by
    simp [bytes_eq_flatMap]
  rw [happend, happend, hzero, List.append_assoc, List.singleton_append]

namespace Attachment

theorem identity_eq (nodeId name : String) (digest : ContentDigest) :
    identity nodeId name digest =
      Text.bytes nodeId ++ 0 :: Text.bytes name ++ 0 :: digest.bytes := by
  rw [identity, toList_eq_data, toList_eq_data]
  rfl

/-- What is before a zero in a name could as well belong to the id of the node. -/
theorem identity_append_zero_name (nodeId front back : String) (digest : ContentDigest) :
    identity nodeId (front ++ "\x00" ++ back) digest =
      identity (nodeId ++ "\x00" ++ front) back digest := by
  simp [identity_eq, Text.bytes_append_zero]

/-- What is before a zero in a digest could as well belong to the name, if digests had no fixed
length. -/
theorem identity_append_zero_digest (nodeId name front : String) (digest : ContentDigest) :
    identity nodeId name ⟨Text.bytes front ++ 0 :: digest.bytes⟩ =
      identity nodeId (name ++ "\x00" ++ front) digest := by
  simp [identity_eq, Text.bytes_append_zero]

end Attachment

/-! ### The answer to an upload -/

namespace StoreM

variable {σ α β : Type}

/-- An operation in two parts that answers has gone through both. -/
theorem exists_of_runIn_bind {s : σ} {x : StoreM σ α} {f : α → StoreM σ β} {b : β}
    (h : (runIn s (x >>= f)).1 = .ok b) :
    ∃ a t, runIn s x = (.ok a, t) ∧ (runIn t (f a)).1 = .ok b := by
  rw [runIn_bind] at h
  split at h
  · exact ⟨_, _, ‹_›, h⟩
  · cases h

/-- An operation that answers with one thing, if it answers. -/
def AnswersOnly (x : StoreM σ β) (b : β) : Prop :=
  ∀ s a, (runIn s x).1 = .ok a → a = b

theorem answersOnly_pure (b : β) : AnswersOnly (pure b : StoreM σ β) b :=
  fun _ _ h => (Except.ok.inj h).symm

theorem AnswersOnly.bind {x : StoreM σ α} {f : α → StoreM σ β} {b : β}
    (h : ∀ a, AnswersOnly (f a) b) : AnswersOnly (x >>= f) b := by
  intro s a hrun
  obtain ⟨found, t, _, hrest⟩ := exists_of_runIn_bind hrun
  exact h found t a hrest

end StoreM

/-- A store in a directory answers with the id of the record or fails, wherever it stops. -/
theorem DirectoryStore.answersOnly_put (name nodeId : String) (contents : ByteArray) :
    StoreM.AnswersOnly (put name nodeId contents) (Attachment.ofFile name nodeId contents).id := by
  refine .bind fun _ => .bind fun found => ?_
  split
  · exact StoreM.answersOnly_pure _
  · refine .bind fun there => ?_
    split
    · exact .bind fun _ => StoreM.answersOnly_pure _
    · exact .bind fun _ => .bind fun _ => StoreM.answersOnly_pure _

theorem DirectoryStore.isValidName_of_runIn_put {store : DirectoryStore} {name nodeId id : String}
    {contents : ByteArray} (h : (StoreM.runIn store (put name nodeId contents)).1 = .ok id) :
    Attachment.isValidName name = true := by
  obtain ⟨_, _, hcheck, _⟩ := StoreM.exists_of_runIn_bind h
  rw [Attachment.checkName] at hcheck
  split at hcheck
  · assumption
  · cases hcheck

namespace Upload

/-- A store in memory or in a directory, in some state, answers the upload with an id. -/
def MayGet (u : Upload) (id : String) : Prop :=
  (∃ store : MemoryStore, u.step.answer store = .ok (.id id)) ∨
    ∃ store : DirectoryStore, u.step.answer store = .ok (.id id)

variable {u v : Upload} {id : String}

theorem answer_memory_eq_ok_iff {store : MemoryStore} :
    u.step.answer store = .ok (.id id) ↔
      Attachment.isValidName u.name = true ∧ u.record.id = id := by
  rw [step, StoreStep.answer, StoreRequest.answer, MemoryStore.runIn_put]
  split
  · simpa [Except.map, record] using fun _ => ‹_›
  · simp [Except.map, *]

theorem of_answer_directory {store : DirectoryStore} (h : u.step.answer store = .ok (.id id)) :
    Attachment.isValidName u.name = true ∧ u.record.id = id := by
  obtain ⟨found, hrun, hfound⟩ := map_eq_ok_iff.1 h
  obtain rfl := StoreAnswer.id.inj hfound
  exact ⟨DirectoryStore.isValidName_of_runIn_put hrun,
    (DirectoryStore.answersOnly_put _ _ _ store found hrun).symm⟩

/-- All stores that take a file answer with the same id. -/
theorem mayGet_iff : u.MayGet id ↔ Attachment.isValidName u.name = true ∧ u.record.id = id := by
  constructor
  · rintro (⟨store, hanswer⟩ | ⟨store, hanswer⟩)
    · exact answer_memory_eq_ok_iff.1 hanswer
    · exact of_answer_directory hanswer
  · exact fun h => .inl ⟨MemoryStore.empty, answer_memory_eq_ok_iff.2 h⟩

/-- Two uploads get the same id only if they are of the same file, or else the digest has a
collision on their files. -/
theorem eq_or_collide_of_mayGet (hu : u.MayGet id) (hv : v.MayGet id) :
    u = v ∨ u.Collide v := by
  obtain ⟨hname, rfl⟩ := mayGet_iff.1 hu
  obtain ⟨hname', hid⟩ := mayGet_iff.1 hv
  exact eq_or_collide hname hname' hid.symm

/-- The record that an upload finds under its id is that of an earlier upload of the same file, or
else the digest has a collision on the two files. -/
theorem exists_of_stat {steps : List StoreStep} {record : Attachment}
    (hput : u.step.answer (afterAll MemoryStore.empty steps) = .ok (.id id))
    (hstat : (StoreRequest.stat id).answer (afterAll MemoryStore.empty steps) =
      .ok (.record (some record))) :
    ∃ v ∈ uploadsOf steps, v.record = record ∧ (u = v ∨ u.Collide v) := by
  have hfind : (afterAll MemoryStore.empty steps).records.find? id = some record :=
    StoreAnswer.record.inj (Except.ok.inj hstat)
  obtain ⟨hid, v, hv, rfl⟩ := (MemoryStore.isTidy_afterAll steps).records id record hfind
  refine ⟨v, hv, rfl, eq_or_collide_of_mayGet (.inl ⟨_, hput⟩) (mayGet_iff.2 ⟨?_, hid⟩)⟩
  exact isValidName_of_mem_uploadsOf hv

end Upload

/-! ### Ids and files -/

/-- The bytes that an id comes from tell nodes, valid names and digests apart, whatever characters
are in the id of a node.  So two uploads get one id, in stores of both kinds and in whatever states,
only if they are of one file or the digest has a collision on their files; and this holds as well of
an upload and of the upload that made the record under its id. -/
theorem ids_tellFilesApart :
    (∀ nodeId nodeId' name name' (digest digest' : ContentDigest),
      Attachment.isValidName name = true → Attachment.isValidName name' = true →
        digest.bytes.length = ContentDigest.size → digest'.bytes.length = ContentDigest.size →
          Attachment.identity nodeId name digest = Attachment.identity nodeId' name' digest' →
            nodeId = nodeId' ∧ name = name' ∧ digest = digest') ∧
    (∀ (u v : Upload) id, u.MayGet id → v.MayGet id → u = v ∨ u.Collide v) ∧
    ∀ steps (u : Upload) id record,
      u.step.answer (afterAll MemoryStore.empty steps) = .ok (.id id) →
        (StoreRequest.stat id).answer (afterAll MemoryStore.empty steps) =
            .ok (.record (some record)) →
          ∃ v ∈ uploadsOf steps, v.record = record ∧ (u = v ∨ u.Collide v) := by
  refine ⟨?_, fun u v id => Upload.eq_or_collide_of_mayGet,
    fun steps u id record => Upload.exists_of_stat⟩
  intro nodeId nodeId' name name' digest digest' hname hname' hdigest hdigest'
  exact Attachment.identity_inj hname hname' (hdigest.trans hdigest'.symm)

/-! ### A node with a zero in its id -/

namespace ZeroInId

def digest : ContentDigest := ⟨List.replicate ContentDigest.size 0⟩

def plan : Upload := ⟨"vpc\x00a", "plan.txt", ⟨#[118]⟩⟩

theorem isValidName_plan : Attachment.isValidName plan.name = true := by
  decide

theorem afterAll_plan : afterAll MemoryStore.empty [plan.step] =
    MemoryStore.empty.add plan.record plan.contents := by
  have huploads : uploadsOf ([plan].map Upload.step) = [plan] := by decide
  have hafter := MemoryStore.afterAll_uploads MemoryStore.empty [plan]
  rwa [huploads] at hafter

/-- The plan gets the id under which its record is already, and only files on which the digest has a
collision could get it as well. -/
theorem ids_tellFilesApart_plan :
    Attachment.identity "vpc\x00a" "plan.txt" digest ≠ Attachment.identity "vpc" "a" digest ∧
    plan.MayGet plan.record.id ∧
    (∀ v : Upload, v.MayGet plan.record.id → plan = v ∨ plan.Collide v) ∧
    plan.step.answer (afterAll MemoryStore.empty [plan.step]) = .ok (.id plan.record.id) ∧
    (StoreRequest.stat plan.record.id).answer (afterAll MemoryStore.empty [plan.step]) =
      .ok (.record (some plan.record)) ∧
    ∃ v ∈ uploadsOf [plan.step], v.record = plan.record ∧ (plan = v ∨ plan.Collide v) := by
  have hname : Attachment.isValidName plan.name = true := by decide
  have hdigest : digest.bytes.length = ContentDigest.size := by decide
  obtain ⟨hidentity, hgets, hfound⟩ := ids_tellFilesApart
  have hput : plan.step.answer (afterAll MemoryStore.empty [plan.step]) =
      .ok (.id plan.record.id) :=
    Upload.answer_memory_eq_ok_iff.2 ⟨hname, rfl⟩
  have hfind : (afterAll MemoryStore.empty [plan.step]).records.find? plan.record.id =
      some plan.record := by
    rw [afterAll_plan, MemoryStore.find?_records_add_eq_or, if_pos rfl]
    rfl
  have hstat : (StoreRequest.stat plan.record.id).answer
      (afterAll MemoryStore.empty [plan.step]) = .ok (.record (some plan.record)) :=
    congrArg (fun record => Except.ok (StoreAnswer.record record)) hfind
  refine ⟨fun heq => ?_, .inl ⟨_, hput⟩, fun v => ?_, hput, hstat, ?_⟩
  · obtain ⟨hnode, _⟩ := hidentity _ _ _ _ _ _ (by decide) (by decide) hdigest hdigest heq
    exact absurd hnode (by decide)
  · exact hgets plan v plan.record.id (.inl ⟨_, hput⟩)
  · exact hfound [plan.step] plan plan.record.id plan.record hput hstat

end ZeroInId

end InfraGraph
