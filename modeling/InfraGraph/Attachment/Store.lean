import InfraGraph.Attachment.Basic

/-!
# Stores of attachments

The operations that every store has.  An operation answers or fails, and in both cases the store may
have changed, so it goes on with the state that the operation leaves.
-/

namespace InfraGraph

/-- An operation on a store with states `σ`. -/
abbrev StoreM (σ α : Type) : Type := ExceptT StoreError (StateM σ) α

/-- A store of attachments with states `σ`. -/
class AttachmentStore (σ : Type) where
  /-- Keeps `contents` as the file `name` of a node, and gives back the id of its record. -/
  put (name nodeId : String) (contents : ByteArray) : StoreM σ String
  /-- The record with an id. -/
  stat (id : String) : StoreM σ (Option Attachment)
  /-- The contents of the attachment with an id. -/
  get (id : String) : StoreM σ (Option ByteArray)
  /-- All records, in the order of their ids. -/
  list : StoreM σ (List Attachment)
  /-- Removes all records and contents. -/
  deleteAll : StoreM σ Unit
  /-- Removes the record with an id, and its contents unless another record needs them. -/
  deleteOne (id : String) : StoreM σ Unit
  /-- Removes the records of a node. -/
  deleteOfNode (nodeId : String) : StoreM σ Unit

namespace StoreM

variable {σ α : Type}

/-- Runs an operation in a state. -/
def runIn (s : σ) (operation : StoreM σ α) : Except StoreError α × σ :=
  StateT.run (ExceptT.run operation) s

/-- An operation that only looks at the state. -/
def look (answer : σ → Except StoreError α) : StoreM σ α :=
  ExceptT.mk fun s => (answer s, s)

/-- An operation that changes the state without failing. -/
def change (next : σ → σ) : StoreM σ Unit :=
  ExceptT.mk fun s => (.ok (), next s)

/-- An operation that changes the state unless it fails. -/
def changeOrFail (next : σ → Except StoreError σ) : StoreM σ Unit :=
  ExceptT.mk fun s =>
    match next s with
    | .ok t => (.ok (), t)
    | .error e => (.error e, s)

end StoreM

end InfraGraph
