import InfraGraph.Attachment.Store
import InfraGraph.FileTree.System
import InfraGraph.Json.Reader
import InfraGraph.Json.Writer

/-!
# Attachments in a directory

The store keeps contents in `blobs/DD/DIGEST`, where `DD` are the first two digits of the digest,
and records in `records/ID.json`.  Files are written to `tmp` first and then moved into place.
Other programs may have changed the directory, so every step can fail, and what was done before
stays done.
-/

namespace InfraGraph

/-- A store in a directory of a file system. -/
structure DirectoryStore where
  /-- The file system that the directory is part of. -/
  files : FileSystem
  /-- The directory. -/
  path : String

namespace DirectoryStore

/-- The folder for files that are being written. -/
def stagingFolder : String := "tmp"

/-- The folder for contents. -/
def blobFolder : String := "blobs"

/-- The folder for records. -/
def recordFolder : String := "records"

/-- Opens the store in a directory, making its folders. -/
def openAt (files : FileSystem) (path : String) : Except FileError DirectoryStore := do
  let files ← files.createFolders path
  let files ← files.createFolders (Path.join path stagingFolder)
  let files ← files.createFolders (Path.join path blobFolder)
  let files ← files.createFolders (Path.join path recordFolder)
  return ⟨files, path⟩

/-- Where the record with an id is kept.  The id is taken as a path below the folder of records. -/
def recordPath (store : DirectoryStore) (id : String) : String :=
  Path.join (Path.join store.path recordFolder) (id ++ ".json")

/-- Where the contents with a digest are kept. -/
def blobPath (store : DirectoryStore) (digest : ContentDigest) : String :=
  let hex := digest.toHex
  Path.join (Path.join (Path.join store.path blobFolder) (String.ofList (hex.toList.take 2))) hex

/-- The file that contents are written to before they are moved into place. -/
def stagingPath (store : DirectoryStore) : String :=
  Path.join (Path.join store.path stagingFolder) "staged"

/-- Asks the file system. -/
def ask {α : Type} (question : DirectoryStore → Except FileError α) : StoreM DirectoryStore α :=
  StoreM.look fun store => (question store).mapError .file

/-- Changes the file system. -/
def act (operation : DirectoryStore → Except FileError FileSystem) : StoreM DirectoryStore Unit :=
  StoreM.changeOrFail fun store =>
    match operation store with
    | .ok files => .ok { store with files := files }
    | .error e => .error (.file e)

/-- Writes a file by way of the staging folder. -/
def writeStaged (target : DirectoryStore → String) (contents : ByteArray) :
    StoreM DirectoryStore Unit := do
  act fun store => store.files.write store.stagingPath contents
  act fun store => store.files.createFolders ((Path.parent? (target store)).getD "")
  act fun store => store.files.move store.stagingPath (target store)

/-- The record in the contents of a file. -/
def recordOfBytes (contents : ByteArray) : Except StoreError Attachment :=
  match ((String.fromUTF8? contents).bind Json.parse?).bind Attachment.ofJson? with
  | some record => .ok record
  | none => .error .corruptRecord

/-- The record that is kept for an id. -/
def readRecord (store : DirectoryStore) (id : String) : Except StoreError (Option Attachment) :=
  match store.files.read (store.recordPath id) with
  | .ok contents => (recordOfBytes contents).map some
  | .error .notFound => .ok none
  | .error e => .error (.file e)

/-- The record in a file of the folder of records, unless its name doesn't end in `.json`. -/
def recordOfEntry (store : DirectoryStore) (name : String) :
    Except StoreError (Option Attachment) :=
  if Path.extension? name = some "json" then
    match store.files.read (Path.join (Path.join store.path recordFolder) name) with
    | .ok contents => (recordOfBytes contents).map some
    | .error e => .error (.file e)
  else .ok none

/-- All records, in the order of their ids. -/
def records (store : DirectoryStore) : Except StoreError (List Attachment) :=
  match store.files.list (Path.join store.path recordFolder) with
  | .error e => .error (.file e)
  | .ok entries => do
    let records ← entries.mapM fun entry => store.recordOfEntry entry.1
    return (records.filterMap id).mergeSort fun a b => a.id ≤ b.id

/-- Removes contents that no record needs.  It is no failure if they are gone already. -/
def collectBlob (digest : ContentDigest) : StoreM DirectoryStore Unit := do
  let records ← StoreM.look records
  if records.any fun record => record.digest = digest then return
  StoreM.changeOrFail fun store =>
    match store.files.removeFile (store.blobPath digest) with
    | .ok files => .ok { store with files := files }
    | .error .notFound => .ok store
    | .error e => .error (.file e)

/-- Removes a record, and its contents unless another record needs them. -/
def removeRecord (record : Attachment) : StoreM DirectoryStore Unit := do
  act fun store => store.files.removeFile (store.recordPath record.id)
  collectBlob record.digest

/-- The record of a file as it is written. -/
def recordText (record : Attachment) : ByteArray :=
  record.toJson.compactText.toUTF8

/-- Empties a folder of the store. -/
def emptyFolder (name : String) : StoreM DirectoryStore Unit := do
  act fun store => store.files.removeFolders (Path.join store.path name)
  act fun store => store.files.createFolders (Path.join store.path name)

/-- Keeps a file.  Contents and record are only written if they aren't there. -/
def put (name nodeId : String) (contents : ByteArray) : StoreM DirectoryStore String := do
  liftExcept (Attachment.checkName name)
  let record := Attachment.ofFile name nodeId contents
  if (← StoreM.look fun store => store.readRecord record.id).isSome then return record.id
  unless ← ask fun store => store.files.exists? (store.blobPath record.digest) do
    writeStaged (fun store => store.blobPath record.digest) contents
  writeStaged (fun store => store.recordPath record.id) (recordText record)
  return record.id

/-- The contents of the attachment with an id. -/
def get (store : DirectoryStore) (id : String) : Except StoreError (Option ByteArray) := do
  match ← store.readRecord id with
  | none => return none
  | some record =>
    match store.files.read (store.blobPath record.digest) with
    | .ok contents => return some contents
    | .error .notFound => .error (.missingBlob record.digest id)
    | .error e => .error (.file e)

/-- Removes the record with an id. -/
def deleteOne (id : String) : StoreM DirectoryStore Unit := do
  match ← StoreM.look fun store => store.readRecord id with
  | none => throw (.unknownAttachment id)
  | some record => removeRecord record

/-- Removes the records of a node, one after the other. -/
def deleteOfNode (nodeId : String) : StoreM DirectoryStore Unit := do
  let all ← StoreM.look records
  (all.filter fun record => record.nodeId = nodeId).forM removeRecord

instance : AttachmentStore DirectoryStore where
  put := put
  stat id := StoreM.look fun store => store.readRecord id
  get id := StoreM.look fun store => store.get id
  list := StoreM.look records
  deleteAll := do
    emptyFolder blobFolder
    emptyFolder recordFolder
  deleteOne := deleteOne
  deleteOfNode := deleteOfNode

end DirectoryStore

end InfraGraph
