import InfraGraph.Attachment.Directory
import InfraGraph.Proofs.Json.RoundTrip
import InfraGraph.Proofs.SortedMap
import InfraGraph.Proofs.Text.Hex

/-!
# Records of attachments

A record that is written to a file is read back as it was, as far as its digest has the length of a
digest and its size fits in a word.  The bytes that an id is derived from tell the node, the name
and the digest apart, because a name has no zero character and a digest has a fixed length.
-/

namespace InfraGraph

namespace Attachment

/-! ### Reading a record back -/

/-- Nothing keeps the record from being read back. -/
structure IsWritable (record : Attachment) : Prop where
  digest : record.digest.bytes.length = ContentDigest.size
  size : record.size ≤ Json.maxWord

theorem readable_toJson (record : Attachment) : record.toJson.Readable := by
  refine .object (fun member hmember => ?_) fun member hmember => ?_
  · obtain ⟨_, _, rfl⟩ := List.mem_map.1 hmember
    rfl
  · simp only [List.map_cons, List.map_nil, List.mem_cons, List.not_mem_nil, or_false] at hmember
    rcases hmember with rfl | rfl | rfl | rfl | rfl | rfl
    · exact .string _
    · exact .string _
    · exact .string _
    · exact .string _
    · exact .number (Json.isNumeral_toDigits _)
    · exact .bool _

theorem ofJson?_toJson {record : Attachment} (h : record.IsWritable) :
    ofJson? record.toJson = some record := by
  have hdigest : digestOfJson? (.ofString record.digest.toHex) = some record.digest := by
    rw [digestOfJson?, Json.ofString, Json.string?, Option.bind_some,
      ContentDigest.ofHex_toHex h.digest]
    rfl
  have hrecord : record.toJson.record? members =
      some [some (.ofString record.id), some (.ofString record.name),
        some (.ofString record.nodeId), some (.ofString record.digest.toHex),
        some (.ofNat record.size), some (.bool record.isText)] := by
    simp [toJson, members, Json.record?, Json.ofMembers, Json.memberOnce?]
  have hsize : Json.nat? Json.maxWord (.ofNat record.size) = some record.size :=
    Json.nat?_ofNat h.size
  have htext (s : String) : Json.string? (.ofString s) = some s := rfl
  rw [ofJson?, hrecord]
  simp only [Json.required, htext, hdigest, hsize, Json.bool?, Option.bind_eq_bind,
    Option.bind_some, Option.pure_def]

/-- Whatever JSON a record is read from, its digest has the length of a digest. -/
theorem length_digest_of_ofJson? {j : Json} {record : Attachment}
    (h : ofJson? j = some record) : record.digest.bytes.length = ContentDigest.size := by
  obtain ⟨values, _, h⟩ := Option.bind_eq_some_iff.1 h
  split at h
  · obtain ⟨_, _, h⟩ := Option.bind_eq_some_iff.1 h
    obtain ⟨_, _, h⟩ := Option.bind_eq_some_iff.1 h
    obtain ⟨_, _, h⟩ := Option.bind_eq_some_iff.1 h
    obtain ⟨digest, hdigest, h⟩ := Option.bind_eq_some_iff.1 h
    obtain ⟨_, _, h⟩ := Option.bind_eq_some_iff.1 h
    obtain ⟨_, _, h⟩ := Option.bind_eq_some_iff.1 h
    obtain ⟨member, _, hmember⟩ := Option.bind_eq_some_iff.1 hdigest
    obtain ⟨text, _, htext⟩ := Option.bind_eq_some_iff.1 hmember
    rw [← Option.some.inj h]
    cases hread : ContentDigest.ofHex text with
    | error e =>
        rw [hread] at htext
        cases htext
    | ok read =>
        rw [hread] at htext
        exact ContentDigest.length_of_ofHex (hread.trans (congrArg _ (Option.some.inj htext)))
  · cases h

end Attachment

/-- A written record is read as it was. -/
theorem DirectoryStore.recordOfBytes_recordText {record : Attachment} (h : record.IsWritable) :
    recordOfBytes (recordText record) = .ok record := by
  rw [recordOfBytes, recordText, fromUTF8?_toUTF8, Option.bind_some,
    Json.parse?_compactText record.readable_toJson, Option.bind_some, Attachment.ofJson?_toJson h]

theorem DirectoryStore.length_digest_of_recordOfBytes {contents : ByteArray} {record : Attachment}
    (h : recordOfBytes contents = .ok record) :
    record.digest.bytes.length = ContentDigest.size := by
  rw [recordOfBytes] at h
  split at h
  · rename_i read hread
    obtain ⟨j, _, hj⟩ := Option.bind_eq_some_iff.1 hread
    obtain rfl := Except.ok.inj h
    exact Attachment.length_digest_of_ofJson? hj
  · cases h

/-! ### What an id is derived from -/

theorem append_cons_inj_of_not_mem {α : Type} {mark : α} {a b a' b' : List α} (hb : mark ∉ b)
    (hb' : mark ∉ b') (h : a ++ mark :: b = a' ++ mark :: b') : a = a' ∧ b = b' := by
  rcases List.append_eq_append_iff.1 h with ⟨between, rfl, hsplit⟩ | ⟨between, rfl, hsplit⟩
  · cases between with
    | nil => exact ⟨by simp, (List.cons.inj hsplit).2⟩
    | cons x between => exact absurd (by simp [(List.cons.inj hsplit).2]) hb
  · cases between with
    | nil => exact ⟨by simp, (List.cons.inj hsplit).2.symm⟩
    | cons x between => exact absurd (by simp [(List.cons.inj hsplit).2]) hb'

namespace Attachment

theorem zero_not_mem_name {name : String} (h : isValidName name = true) :
    0 ∉ name.toUTF8.toList := by
  rw [toList_eq_data]
  intro hmem
  have hbytes : 0 ∈ Text.bytes name := hmem
  rw [Text.bytes_eq_flatMap, List.mem_flatMap] at hbytes
  obtain ⟨c, hc, hzero⟩ := hbytes
  simp only [isValidName, Bool.and_eq_true, decide_eq_true_eq, List.all_eq_true] at h
  exact (h.2 c hc).2 (Text.eq_zero_of_zero_mem hzero)

/-- The bytes behind an id tell files apart, as long as their names are valid. -/
theorem identity_inj {nodeId nodeId' name name' : String} {digest digest' : ContentDigest}
    (hname : isValidName name = true) (hname' : isValidName name' = true)
    (hdigest : digest.bytes.length = digest'.bytes.length)
    (h : identity nodeId name digest = identity nodeId' name' digest') :
    nodeId = nodeId' ∧ name = name' ∧ digest = digest' := by
  obtain ⟨hfront, hback⟩ := List.append_inj' h (by simp [hdigest])
  obtain ⟨hnode, hbytes⟩ := append_cons_inj_of_not_mem (zero_not_mem_name hname)
    (zero_not_mem_name hname') hfront
  rw [toList_eq_data, toList_eq_data] at hnode hbytes
  refine ⟨Text.bytes_inj hnode, Text.bytes_inj hbytes, ?_⟩
  exact congrArg ContentDigest.mk (List.cons.inj hback).2

theorem isWritable_ofFile {name nodeId : String} {contents : ByteArray}
    (h : contents.size ≤ Json.maxWord) : (ofFile name nodeId contents).IsWritable :=
  ⟨ContentDigest.length_bytes_of contents, h⟩

end Attachment

/-! ### Records in order -/

section Order

variable {records : SortedMap Attachment}

theorem map_id_values (h : ∀ id record, records.find? id = some record → record.id = id) :
    records.values.map (·.id) = records.keys := by
  rw [SortedMap.values, SortedMap.keys, List.map_map]
  refine List.map_congr_left fun entry hentry => ?_
  exact h _ _ (SortedMap.mem_toList_iff.1 hentry)

theorem mem_values_iff_find?_id (h : ∀ id record, records.find? id = some record → record.id = id)
    {record : Attachment} :
    record ∈ records.values ↔ records.find? record.id = some record := by
  rw [SortedMap.mem_values_iff]
  constructor
  · intro ⟨id, hfind⟩
    rwa [h id record hfind]
  · intro hfind
    exact ⟨_, hfind⟩

theorem values_erase (h : ∀ id record, records.find? id = some record → record.id = id)
    (id : String) :
    (records.erase id).values = records.values.filter fun record => record.id ≠ id := by
  rw [SortedMap.values, SortedMap.values, List.filter_map]
  refine congrArg (List.map _) (List.filter_congr fun entry hentry => ?_)
  rw [Function.comp_apply, h _ _ (SortedMap.mem_toList_iff.1 hentry)]

theorem pairwise_values (h : ∀ id record, records.find? id = some record → record.id = id) :
    records.values.Pairwise fun a b => a.id < b.id := by
  have hkeys : records.keys.Pairwise (· < ·) := List.pairwise_map.2 records.ascending
  rw [← map_id_values h, List.pairwise_map] at hkeys
  exact hkeys

/-- The records of a map in the order of their ids, whatever order they are found in. -/
theorem mergeSort_eq_values (h : ∀ id record, records.find? id = some record → record.id = id)
    {found : List Attachment} (hnodup : found.Nodup)
    (hmem : ∀ record, record ∈ found ↔ records.find? record.id = some record) :
    (found.mergeSort fun a b => a.id ≤ b.id) = records.values := by
  have hvalues : records.values.Nodup :=
    List.Nodup.of_map _ (map_id_values h ▸ records.keys_nodup)
  have hperm : found.Perm records.values := by
    rw [List.perm_ext_iff_of_nodup hnodup hvalues]
    exact fun record => (hmem record).trans (mem_values_iff_find?_id h).symm
  have htrans : ∀ a b c : Attachment, decide (a.id ≤ b.id) = true → decide (b.id ≤ c.id) = true →
      decide (a.id ≤ c.id) = true := fun a b c hab hbc =>
    decide_eq_true (String.le_trans (of_decide_eq_true hab) (of_decide_eq_true hbc))
  have htotal : ∀ a b : Attachment, (decide (a.id ≤ b.id) || decide (b.id ≤ a.id)) = true := by
    intro a b
    simpa using String.le_total a.id b.id
  have hsorted := List.pairwise_mergeSort htrans htotal found
  have hle : records.values.Pairwise fun a b => decide (a.id ≤ b.id) = true :=
    (pairwise_values h).imp fun hlt => decide_eq_true (Std.le_of_lt hlt)
  refine List.Perm.eq_of_pairwise (fun a b ha hb hab hba => ?_) hsorted hle
    ((List.mergeSort_perm _ _).trans hperm)
  have hid : a.id = b.id := String.le_antisymm (of_decide_eq_true hab) (of_decide_eq_true hba)
  have ha' := (hmem a).1 ((List.mergeSort_perm _ _).subset ha)
  rw [hid, (mem_values_iff_find?_id h).1 hb] at ha'
  exact (Option.some.inj ha').symm

end Order
end InfraGraph
