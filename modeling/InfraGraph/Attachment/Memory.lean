import InfraGraph.Attachment.Store
import InfraGraph.SortedMap

/-!
# Attachments in memory

Records are kept by their ids, contents by the hexadecimal form of their digests.
-/

namespace InfraGraph

/-- A store in memory. -/
structure MemoryStore where
  /-- The contents, by their digests. -/
  blobs : SortedMap ByteArray
  /-- The records, by their ids. -/
  records : SortedMap Attachment

namespace MemoryStore

/-- The store without attachments. -/
def empty : MemoryStore := ⟨.empty, .empty⟩

instance : Inhabited MemoryStore := ⟨empty⟩

/-- Removes contents that no record needs. -/
def collectBlob (store : MemoryStore) (digest : ContentDigest) : MemoryStore :=
  if store.records.values.any fun record => record.digest = digest then store
  else { store with blobs := store.blobs.erase digest.toHex }

/-- Adds a record and its contents, unless the record is there. -/
def add (store : MemoryStore) (record : Attachment) (contents : ByteArray) : MemoryStore :=
  if store.records.contains record.id then store
  else
    let key := record.digest.toHex
    { blobs := if store.blobs.contains key then store.blobs else store.blobs.insert key contents
      records := store.records.insert record.id record }

/-- The contents of the attachment with an id. -/
def get (store : MemoryStore) (id : String) : Except StoreError (Option ByteArray) :=
  match store.records.find? id with
  | none => .ok none
  | some record =>
    match store.blobs.find? record.digest.toHex with
    | some contents => .ok (some contents)
    | none => .error (.missingBlob record.digest id)

/-- Removes the record with an id. -/
def deleteOne (store : MemoryStore) (id : String) : Except StoreError MemoryStore :=
  match store.records.find? id with
  | none => .error (.unknownAttachment id)
  | some record =>
    .ok (collectBlob { store with records := store.records.erase id } record.digest)

/-- Removes the records of a node, and then the contents that are no longer needed. -/
def deleteOfNode (store : MemoryStore) (nodeId : String) : MemoryStore :=
  let removed := store.records.values.filter fun record => record.nodeId = nodeId
  let kept := store.records.filter fun entry => entry.2.nodeId ≠ nodeId
  removed.foldl (fun store record => store.collectBlob record.digest)
    { store with records := kept }

instance : AttachmentStore MemoryStore where
  put name nodeId contents := do
    liftExcept (Attachment.checkName name)
    let record := Attachment.ofFile name nodeId contents
    StoreM.change fun store => store.add record contents
    return record.id
  stat id := StoreM.look fun store => .ok (store.records.find? id)
  get id := StoreM.look fun store => store.get id
  list := StoreM.look fun store => .ok store.records.values
  deleteAll := StoreM.change fun _ => empty
  deleteOne id := StoreM.changeOrFail fun store => store.deleteOne id
  deleteOfNode nodeId := StoreM.change fun store => store.deleteOfNode nodeId

end MemoryStore

end InfraGraph
