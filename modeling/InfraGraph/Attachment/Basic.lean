import InfraGraph.Digest.Basic
import InfraGraph.FileTree.Error
import InfraGraph.Json.Record
import InfraGraph.Text.Quoted

/-!
# Attachments

An attachment is a file that belongs to a node.  Its record is kept apart from its contents, which
are found by their digest.  The id of a record comes from the node, the name and the contents, so
the same file of the same node has one record however often it is uploaded.
-/

namespace InfraGraph

/-- What is known about an uploaded file. -/
structure Attachment where
  id : String
  /-- The plain name of the file. -/
  name : String
  /-- The node that the file belongs to. -/
  nodeId : String
  /-- The digest of the contents. -/
  digest : ContentDigest
  /-- The number of bytes. -/
  size : Nat
  /-- Whether the contents are taken for text. -/
  isText : Bool
  deriving DecidableEq, Repr

/-- Why an address names no store. -/
inductive AddressError where
  /-- The address is no URL. -/
  | malformed (reason : String)
  /-- A store in memory has neither host nor path. -/
  | unexpectedParts
  /-- A store in a directory has no host. -/
  | hostGiven
  /-- A store in a directory needs a path. -/
  | pathMissing
  /-- The root of the file system is no place for a store. -/
  | pathIsRoot
  /-- There is no kind of store with this scheme. -/
  | unknownScheme (scheme : String)
  deriving DecidableEq, Repr

/-- The wording of a fault in an address. -/
def AddressError.message : AddressError → String
  | malformed reason => "unable to parse url: " ++ reason
  | unexpectedParts => "invalid url"
  | hostGiven => "no host allowed"
  | pathMissing => "missing path"
  | pathIsRoot => "cowardly refusing to use / as attachment store"
  | unknownScheme scheme => "unknown scheme: " ++ scheme

/-- Why a store of attachments refuses or fails. -/
inductive StoreError where
  /-- The name is not that of a single file. -/
  | invalidName (name : String)
  /-- No record has the id. -/
  | unknownAttachment (id : String)
  /-- A record names contents that aren't there. -/
  | missingBlob (digest : ContentDigest) (id : String)
  /-- A record can't be read. -/
  | corruptRecord
  /-- A file operation fails. -/
  | file (error : FileError)
  /-- The address of the store is of no use. -/
  | address (error : AddressError)
  deriving DecidableEq, Repr

namespace StoreError

/-- Whether the request is at fault and not the store. -/
def isRequest : StoreError → Bool
  | invalidName _ => true
  | unknownAttachment _ => true
  | file error => error.kind = .invalidInput
  | _ => false

/-- What went wrong, without saying on which side. -/
def detail : StoreError → String
  | invalidName name => "invalid attachment name: " ++ Text.quoted name
  | unknownAttachment id => "attachment not found: " ++ id
  | missingBlob digest id => "blob " ++ digest.display ++ " for attachment " ++ id ++ " is missing"
  | corruptRecord => "corrupt attachment record"
  | file error => error.message
  | address error => error.message

/-- The wording of a failure. -/
def message (e : StoreError) : String :=
  (if e.isRequest then "invalid request: " else "internal storage error: ") ++ e.detail

/-- A failure of the store as a failure of the file operation that it stands for. -/
def toFileError (e : StoreError) : FileError :=
  .reported (if e.isRequest then .invalidInput else .other) e.detail

end StoreError

namespace Attachment

/-- Files of this size and above are never taken for text. -/
def textLimit : Nat := 1024 * 1024

/-- Small contents that are text without zero bytes. -/
def looksLikeText (contents : ByteArray) : Bool :=
  contents.size < textLimit && !contents.data.contains 0 && (String.fromUTF8? contents).isSome

/-- A name that can stand for a single file in a folder. -/
def isValidName (name : String) : Bool :=
  name ≠ "" && name ≠ "." && name ≠ ".." &&
    name.toList.all fun c => c ≠ '/' && c ≠ '\\' && c ≠ Char.ofNat 0

/-- Refuses names that can't stand for a single file in a folder. -/
def checkName (name : String) : Except StoreError Unit :=
  if isValidName name then .ok () else .error (.invalidName name)

/-- The bytes whose digest is the id of an attachment. -/
def identity (nodeId name : String) (digest : ContentDigest) : List UInt8 :=
  nodeId.toUTF8.toList ++ 0 :: name.toUTF8.toList ++ 0 :: digest.bytes

/-- The id of the file `name` of a node, with contents of a given digest. -/
def deriveId (nodeId name : String) (digest : ContentDigest) : String :=
  (ContentDigest.of ⟨(identity nodeId name digest).toArray⟩).toHex

/-- The record of the file `name` of a node. -/
def ofFile (name nodeId : String) (contents : ByteArray) : Attachment :=
  let digest := ContentDigest.of contents
  { id := deriveId nodeId name digest
    name := name
    nodeId := nodeId
    digest := digest
    size := contents.size
    isText := looksLikeText contents }

/-- The members of a record in JSON. -/
def members : List String := ["id", "name", "nodeId", "digest", "size", "isText"]

/-- A record in JSON. -/
def toJson (a : Attachment) : Json :=
  .ofMembers [("id", .ofString a.id), ("name", .ofString a.name), ("nodeId", .ofString a.nodeId),
    ("digest", .ofString a.digest.toHex), ("size", .ofNat a.size), ("isText", .bool a.isText)]

/-- The digest that a JSON string holds. -/
def digestOfJson? (j : Json) : Option ContentDigest :=
  j.string?.bind fun text => (ContentDigest.ofHex text).toOption

/-- Reads a record from JSON. -/
def ofJson? (j : Json) : Option Attachment := do
  match ← j.record? members with
  | [id, name, nodeId, digest, size, isText] =>
    let id ← Json.required Json.string? id
    let name ← Json.required Json.string? name
    let nodeId ← Json.required Json.string? nodeId
    let digest ← Json.required digestOfJson? digest
    let size ← Json.required (Json.nat? Json.maxWord) size
    let isText ← Json.required Json.bool? isText
    return ⟨id, name, nodeId, digest, size, isText⟩
  | _ => none

end Attachment

end InfraGraph
