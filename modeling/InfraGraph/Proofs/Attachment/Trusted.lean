import InfraGraph.Proofs.Attachment.Lookup
import InfraGraph.Proofs.Attachment.Workplace

/-!
# What an upload trusts

An upload that finds a record doesn't look for contents, and one that finds something in the place of
the contents doesn't look into it.  Whether what was uploaded can be read back depends on nothing but
that: it can if what was found is what would have been written.
-/

namespace InfraGraph.DirectoryStore

open InfraGraph.Path FileSystem

/-- What an upload finds is right: the record that is there leads to the contents, or without a
record these are what is already in their place. -/
structure FindsRight (store : DirectoryStore) (id : String) (contents : ByteArray) : Prop where
  record : ∀ found, store.readRecord id = .ok (some found) →
    store.files.read (store.blobPath found.digest) = .ok contents
  blob : store.readRecord id = .ok none →
    store.files.exists? (store.blobPath (ContentDigest.of contents)) = .ok true →
      store.files.read (store.blobPath (ContentDigest.of contents)) = .ok contents

section Trusted

variable {store : DirectoryStore} {home : List String} {id : String} {contents : ByteArray}

/-- The contents of a record are what is in their place. -/
theorem answer_get_iff {record : Attachment} (hread : store.readRecord id = .ok (some record)) :
    (StoreRequest.get id).answer store = .ok (.contents (some contents)) ↔
      store.files.read (store.blobPath record.digest) = .ok contents := by
  have hanswer : (StoreRequest.get id).answer store = (store.get id).map .contents := rfl
  rw [hanswer, map_eq_ok_iff, get, hread]
  simp only [bind, Except.bind]
  cases hblob : store.files.read (store.blobPath record.digest) with
  | ok found => simp [pure, Except.pure]
  | error e => cases e <;> simp

theorem answer_get_of_notFound {record : Attachment}
    (hread : store.readRecord id = .ok (some record))
    (hblob : store.files.read (store.blobPath record.digest) = .error .notFound) :
    (StoreRequest.get id).answer store = .error (.missingBlob record.digest id) := by
  have hget : store.get id = .error (.missingBlob record.digest id) := by
    rw [get, hread]
    simp only [bind, Except.bind, hblob]
  exact congrArg (Except.map StoreAnswer.contents) hget

theorem IsWorkplace.read_blob_iff (h : store.IsWorkplace home) {digest : ContentDigest}
    (hdigest : IsAddress digest.toHex) :
    store.files.read (store.blobPath digest) = .ok contents ↔
      store.files.root.kindAt (home ++ [blobFolder, shardOf digest.toHex, digest.toHex]) =
        some (.file contents) := by
  rw [blobPath_eq h.isHome h.path hdigest,
    (h.isUnlinked _).read_eq_ok_iff (h.isHome.plain_append hdigest.isInside)]
  exact and_iff_right (h.isHome.fits_append hdigest.isInside)

/-- What was uploaded can be read back exactly if what the upload found was right. -/
theorem IsWorkplace.get_put_iff (h : store.IsWorkplace home) {name nodeId : String}
    (hsize : contents.size ≤ Json.maxWord)
    (hput : (StoreRequest.put name nodeId contents).answer store = .ok (.id id)) :
    (StoreRequest.get id).answer ((StoreRequest.put name nodeId contents).perform store) =
      .ok (.contents (some contents)) ↔ store.FindsRight id contents := by
  obtain ⟨record, hrecord⟩ : ∃ record, record = Attachment.ofFile name nodeId contents := ⟨_, rfl⟩
  have hid : IsAddress record.id := hrecord ▸ isAddress_of _
  have hdigest : record.digest = ContentDigest.of contents := hrecord ▸ rfl
  have haddress : IsAddress record.digest.toHex := hdigest ▸ isAddress_of contents
  have hwritable : record.IsWritable := hrecord ▸ Attachment.isWritable_ofFile hsize
  have houtcome := h.putOutcome name nodeId contents
  rw [← hrecord] at houtcome
  have hperform : (StoreRequest.put name nodeId contents).perform store =
      (StoreM.runIn store (put name nodeId contents)).2 := rfl
  obtain ⟨answer, hanswer, hanswerId⟩ := map_eq_ok_iff.1 hput
  change (StoreM.runIn store (put name nodeId contents)).1 = .ok answer at hanswer
  obtain rfl := StoreAnswer.id.inj hanswerId
  rw [hperform]
  generalize StoreM.runIn store (put name nodeId contents) = result at houtcome hanswer
  cases houtcome with
  | failed e => cases hanswer
  | @trusted found hread =>
      obtain rfl := Except.ok.inj hanswer
      rw [answer_get_iff hread]
      refine ⟨fun hblob => ⟨fun other hother => ?_, fun hnone => ?_⟩, fun hright =>
        hright.record found hread⟩
      · rw [hread] at hother
        obtain rfl := Option.some.inj (Except.ok.inj hother)
        exact hblob
      · rw [hread] at hnone
        cases hnone
  | @written next hread hnext hkind there hexists hblob =>
      obtain rfl := Except.ok.inj hanswer
      have hholds : next.HoldsRecord home (record.id ++ ".json") record :=
        ⟨h.isHome.fits_append hid.isLookup.isInside, _, hkind, recordOfBytes_recordText hwritable⟩
      rw [answer_get_iff ((hnext.readRecord_eq_some_iff hid.isLookup.no_slash).2 hholds),
        hnext.read_blob_iff haddress, hblob]
      cases there with
      | false =>
          refine iff_of_true (by rw [if_neg (by decide)]) ⟨fun found hfound => ?_, fun _ htrue => ?_⟩
          · rw [hread] at hfound
            cases hfound
          · rw [← hdigest, hexists] at htrue
            cases htrue
      | true =>
          rw [if_pos rfl, ← h.read_blob_iff haddress, hdigest]
          refine ⟨fun hright => ⟨fun found hfound => ?_, fun _ _ => hright⟩, fun hright =>
            hright.blob hread (hdigest ▸ hexists)⟩
          rw [hread] at hfound
          cases hfound

/-- With a record, whatever it is, an upload is accepted and changes nothing. -/
theorem perform_put_of_record {name nodeId : String} {record found : Attachment}
    (hname : Attachment.isValidName name = true)
    (hrecord : Attachment.ofFile name nodeId contents = record)
    (hread : store.readRecord record.id = .ok (some found)) :
    (StoreRequest.put name nodeId contents).answer store = .ok (.id record.id) ∧
      (StoreRequest.put name nodeId contents).perform store = store := by
  have hcheck : Attachment.checkName name = .ok () := by simp [Attachment.checkName, hname]
  have hrun := @runIn_put_of_valid store record contents name nodeId hcheck hrecord
  rw [hread] at hrun
  exact ⟨congrArg (fun result : Except StoreError String × DirectoryStore =>
    result.1.map StoreAnswer.id) hrun, congrArg Prod.snd hrun⟩

end Trusted

namespace OneUpload

/-- The store after the upload. -/
theorem exists_mirrors :
    ∃ store, openAt ⟨.folder [], []⟩ (absolute NewStore.home) = .ok store ∧
      (afterAll store steps).Mirrors NewStore.home ForgedRecord.memory := by
  obtain ⟨store, hopen, hopened, _⟩ := (isVacant_of_bareRoot NewStore.isHome_home []).exists_openAt
  exact ⟨store, hopen, (hopened.yields_put NewStore.isHome_home
    (show Attachment.isValidName "plan.txt" = true by decide) "vpc"
    (show (⟨#[97]⟩ : ByteArray).size ≤ Json.maxWord by decide)).answer.2⟩

theorem find?_blobs : ForgedRecord.memory.blobs.find? ForgedRecord.uploaded.digest.toHex =
    some ⟨#[97]⟩ := by
  rw [ForgedRecord.memory, MemoryStore.find?_blobs_add ForgedRecord.not_contains_uploaded]
  exact if_pos ⟨rfl, rfl⟩

theorem readRecord_uploaded {store : DirectoryStore}
    (h : store.Mirrors NewStore.home ForgedRecord.memory) :
    store.readRecord ForgedRecord.uploaded.id = .ok (some ForgedRecord.uploaded) := by
  have haddress : IsAddress ForgedRecord.uploaded.id := isAddress_of _
  exact (h.readRecord_eq NewStore.isHome_home haddress.isLookup).trans
    (congrArg Except.ok ForgedRecord.find?_records)

/-- The file is uploaded again, and can be read back. -/
theorem get_put_uploaded :
    ∃ store, openAt ⟨.folder [], []⟩ (absolute NewStore.home) = .ok store ∧
      (afterAll store steps).IsWorkplace NewStore.home ∧
      (StoreRequest.put "plan.txt" "vpc" ⟨#[97]⟩).answer (afterAll store steps) =
        .ok (.id ForgedRecord.uploaded.id) ∧
      (StoreRequest.get ForgedRecord.uploaded.id).answer
          ((StoreRequest.put "plan.txt" "vpc" ⟨#[97]⟩).perform (afterAll store steps)) =
        .ok (.contents (some ⟨#[97]⟩)) := by
  have hdigest : IsAddress ForgedRecord.uploaded.digest.toHex := isAddress_of _
  obtain ⟨store, hopen, hmirrors⟩ := exists_mirrors
  have hwork := hmirrors.isWorkplace NewStore.isHome_home
  have hread := readRecord_uploaded hmirrors
  have hput : (StoreRequest.put "plan.txt" "vpc" ⟨#[97]⟩).answer (afterAll store steps) =
      .ok (.id ForgedRecord.uploaded.id) := (perform_put_of_record (by decide) rfl hread).1
  refine ⟨store, hopen, hwork, hput, (hwork.get_put_iff (by decide) hput).2
    ⟨fun found hfound => ?_, fun hnone => ?_⟩⟩
  · rw [hread] at hfound
    obtain rfl := Option.some.inj (Except.ok.inj hfound)
    rw [hwork.read_blob_iff hdigest]
    exact hmirrors.kept _ _ (.blob find?_blobs)
  · rw [hread] at hnone
    cases hnone

end OneUpload

namespace InterruptedDeletion

/-- All contents of a store are gone, as they are when the deletion of everything stops halfway. -/
def withoutBlobs (store : DirectoryStore) : DirectoryStore :=
  { store with files := store.files.remove (NewStore.home ++ [blobFolder]) }

/-- The upload of a file is accepted, and the file can't be read. -/
theorem exists_unreadable :
    ∃ store, openAt ⟨.folder [], []⟩ (absolute NewStore.home) = .ok store ∧
      let left := withoutBlobs (afterAll store OneUpload.steps)
      left.IsWorkplace NewStore.home ∧
      (StoreRequest.put "plan.txt" "vpc" ⟨#[97]⟩).answer left =
        .ok (.id ForgedRecord.uploaded.id) ∧
      (StoreRequest.get ForgedRecord.uploaded.id).answer
          ((StoreRequest.put "plan.txt" "vpc" ⟨#[97]⟩).perform left) =
        .error (.missingBlob ForgedRecord.uploaded.digest ForgedRecord.uploaded.id) := by
  have hid : IsAddress ForgedRecord.uploaded.id := isAddress_of _
  have hdigest : IsAddress ForgedRecord.uploaded.digest.toHex := isAddress_of _
  obtain ⟨store, hopen, hmirrors⟩ := OneUpload.exists_mirrors
  have hwork := hmirrors.isWorkplace NewStore.isHome_home
  obtain ⟨left, hleft⟩ : ∃ left, left = withoutBlobs (afterAll store OneUpload.steps) := ⟨_, rfl⟩
  have hleftWork : left.IsWorkplace NewStore.home := hleft ▸ hwork.remove (List.cons_ne_nil _ _)
  have hkind : ∀ rest, left.files.root.kindAt (NewStore.home ++ rest) =
      if [blobFolder] <+: rest then none
      else (afterAll store OneUpload.steps).files.root.kindAt (NewStore.home ++ rest) := by
    rw [hleft]
    exact kindAt_remove (List.cons_ne_nil _ _)
  have hholds : left.HoldsRecord NewStore.home (ForgedRecord.uploaded.id ++ ".json")
      ForgedRecord.uploaded := by
    refine ⟨NewStore.isHome_home.fits_append hid.isLookup.isInside, _, (hkind _).trans
      ((if_neg (by decide)).trans (hmirrors.kept _ _ (.record ForgedRecord.find?_records))),
      recordOfBytes_recordText (Attachment.isWritable_ofFile (by decide))⟩
  have hread := (hleftWork.readRecord_eq_some_iff hid.isLookup.no_slash).2 hholds
  obtain ⟨hput, hsame⟩ := perform_put_of_record (by decide) rfl hread
  have hmissing : left.files.IsMissing NewStore.home blobFolder :=
    ⟨hleftWork.folder, (hkind _).trans (if_pos List.prefix_rfl)⟩
  have hblob : left.files.read (left.blobPath ForgedRecord.uploaded.digest) =
      .error .notFound := by
    rw [blobPath_eq hleftWork.isHome hleftWork.path hdigest]
    exact read_missing (NewStore.isHome_home.plain_append hdigest.isInside)
      (NewStore.isHome_home.fits_append hdigest.isInside) hmissing
  refine ⟨store, hopen, hleft ▸ hleftWork, hleft ▸ hput, ?_⟩
  rw [← hleft, hsame]
  exact answer_get_of_notFound hread hblob

end InterruptedDeletion

end InfraGraph.DirectoryStore
