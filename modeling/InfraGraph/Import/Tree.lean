import InfraGraph.Attachment.Store
import InfraGraph.Import.Reconstruct
import InfraGraph.Import.Scan

/-!
# Importing a tree

A tree to be imported has the fixed configuration file at its top.  The directories there are
scanned together, so that dependencies may lead from one to the other; the files beside
configuration files are put into the store.
-/

namespace InfraGraph

/-- Puts files into a store, in their order. -/
def uploadAll {σ : Type} [AttachmentStore σ] (uploads : List Upload) : StoreM σ Unit :=
  uploads.forM fun upload => do
    let _ ← AttachmentStore.put upload.name upload.nodeId upload.contents

/-- Scans the directories at the top of a tree. -/
def scanTree (fs : FileSystem) (root : String) (draw : Nat → String) :
    Except GraphError (ScanOutput × List Upload) :=
  if fs.isFile (Path.join root NodeType.defaultFileName) then
    match fs.list root with
    | .error e => .error (.io root e)
    | .ok entries =>
      ((Scanner.mk root draw).scanSubfolders root 0 none NodeIds.empty entries).1.result
  else .error (.rootConfigMissing root)

/-- The graph of the tree at `root`, with its files in a store. -/
def importTree {σ : Type} [AttachmentStore σ] (fs : FileSystem) (root : String)
    (options : LayoutOptions Float) (draw : Nat → String) (store : σ) :
    Except GraphError ImportedGraph × σ :=
  match scanTree fs root draw with
  | .error e => (.error e, store)
  | .ok (output, uploads) =>
    match StoreM.runIn store (uploadAll uploads) with
    | (.error e, store) => (.error (.attachmentStore e), store)
    | (.ok _, store) => (reconstruct output options, store)

end InfraGraph
