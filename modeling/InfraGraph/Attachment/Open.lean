import InfraGraph.Attachment.Address
import InfraGraph.Attachment.Directory
import InfraGraph.Attachment.Memory

/-!
# Stores behind addresses

A store that was opened by its address is one of the two kinds, and does what that kind does.
-/

namespace InfraGraph

/-- A store of either kind. -/
inductive OpenStore where
  | memory (store : MemoryStore)
  | directory (store : DirectoryStore)

namespace OpenStore

/-- Opens the store at an address.  The folders of a directory are made at once. -/
def ofAddress (files : FileSystem) (address : String) : Except StoreError OpenStore :=
  match StoreAddress.parse address with
  | .error e => .error (.address e)
  | .ok .memory => .ok (memory .empty)
  | .ok (.directory path) => ((DirectoryStore.openAt files path).map directory).mapError .file

/-- The file system that a store works on, if it does. -/
def files? : OpenStore → Option FileSystem
  | memory _ => none
  | directory store => some store.files

/-- Does what the kind of the store asks for. -/
def perform {α : Type} (inMemory : StoreM MemoryStore α) (inDirectory : StoreM DirectoryStore α) :
    StoreM OpenStore α :=
  ExceptT.mk fun store =>
    match store with
    | memory store =>
      let (answer, store) := StoreM.runIn store inMemory
      (answer, memory store)
    | directory store =>
      let (answer, store) := StoreM.runIn store inDirectory
      (answer, directory store)

instance : AttachmentStore OpenStore where
  put name nodeId contents :=
    perform (AttachmentStore.put name nodeId contents) (AttachmentStore.put name nodeId contents)
  stat id := perform (AttachmentStore.stat id) (AttachmentStore.stat id)
  get id := perform (AttachmentStore.get id) (AttachmentStore.get id)
  list := perform AttachmentStore.list AttachmentStore.list
  deleteAll := perform AttachmentStore.deleteAll AttachmentStore.deleteAll
  deleteOne id := perform (AttachmentStore.deleteOne id) (AttachmentStore.deleteOne id)
  deleteOfNode nodeId :=
    perform (AttachmentStore.deleteOfNode nodeId) (AttachmentStore.deleteOfNode nodeId)

end OpenStore

end InfraGraph
