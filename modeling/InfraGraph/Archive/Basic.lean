import InfraGraph.Attachment.Store
import InfraGraph.Config.ModuleSource
import InfraGraph.Config.Render
import InfraGraph.Graph.Dependencies
import InfraGraph.FileTree.System

/-!
# The archive of a graph

Every node with a directory becomes a directory of the archive.  Nodes of a type with output get
their configuration file, attached files lie beside it, and the fixed file lies at the top.  Entries
come in the order of their names, directories first, and nothing in them depends on the time of
writing.
-/

namespace InfraGraph

/-- A tree of files that is ready to be packed. -/
structure Archive where
  /-- The names of the directories, each with a slash at its end. -/
  directories : SortedMap Unit
  /-- The contents of the files. -/
  files : SortedMap ByteArray

/-- One entry of an archive.  Directories have no contents. -/
structure ArchiveEntry where
  name : String
  contents : Option ByteArray

/-- The entries of an archive, in their order. -/
def Archive.entries (a : Archive) : List ArchiveEntry :=
  a.directories.keys.map (fun name => ⟨name, none⟩) ++
    a.files.toList.map fun (name, contents) => ⟨name, some contents⟩

/-- A file of an archive, and the node that it belongs to. -/
structure OwnedFile where
  owner : String
  contents : ByteArray

/-- The owner of the file at the top, which belongs to no node. -/
def bootstrapOwner : String := "<root>"

/-- An attached file that is still to be fetched. -/
structure PendingFile where
  path : String
  nodeId : String
  file : FileRef

/-- The files of a graph while they are collected. -/
structure Placement where
  files : SortedMap OwnedFile
  /-- The attached files to be fetched, the last one first. -/
  pending : List PendingFile

namespace Archive

/-- The id of the node whose directory is at a path.  If the directory has several, the last one
counts. -/
def directoryOwner? (paths : PathMap) (path : String) : Option String :=
  (paths.toList.reverse.find? fun entry => entry.2 = path).map (·.1)

/-- Adds a file.  It may neither replace another file nor lie where a node has its directory. -/
def placeFile (paths : PathMap) (files : SortedMap OwnedFile) (path owner : String)
    (contents : ByteArray) : Except GraphError (SortedMap OwnedFile) :=
  match directoryOwner? paths path with
  | some first => .error (.pathCollision path first owner)
  | none =>
    match files.find? path with
    | some existing => .error (.pathCollision path existing.owner owner)
    | none => .ok (files.insert path ⟨owner, contents⟩)

/-- The configuration file of a node with given dependencies. -/
def configFile (moduleBase : String) (node : Node) (dependencies : SortedMap String) :
    ConfigFile where
  fileName := node.type.outputFileName
  moduleSource := node.type.module?.map (ModuleSource.ofName moduleBase)
  locals := node.locals
  inputs := node.inputs
  dependencies := dependencies

/-- Adds the configuration file of a node, if its type has one. -/
def placeConfig (g : Graph) (moduleBase : String) (paths : PathMap) (node : Node)
    (nodePath : String) (files : SortedMap OwnedFile) : Except GraphError (SortedMap OwnedFile) :=
  if node.type.hasOutput then do
    let dependencies ← resolveDependencies node.id nodePath (g.outgoing node.id) paths
    let text := (configFile moduleBase node dependencies).text
    placeFile paths files (nodePath ++ "/" ++ node.type.outputFileName) node.id text.toUTF8
  else .ok files

/-- Notes an attached file of a node, whose name has to be that of a single file. -/
def notePending (node : Node) (nodePath : String) (pending : List PendingFile) (file : FileRef) :
    Except GraphError (List PendingFile) :=
  if Attachment.isValidName file.fileName then
    .ok (⟨nodePath ++ "/" ++ file.fileName, node.id, file⟩ :: pending)
  else .error (.invalidAttachmentName node.id file.fileName)

/-- Adds what belongs to the node with an id.  Of several nodes with the id the last one counts. -/
def placeNode (g : Graph) (moduleBase : String) (paths : PathMap) (placement : Placement)
    (entry : String × String) : Except GraphError Placement :=
  match g.nodes.reverse.find? fun n => n.id = entry.1 with
  | none => .ok placement
  | some node => do
    let files ← placeConfig g moduleBase paths node entry.2 placement.files
    let pending ← node.files.foldlM (notePending node entry.2) placement.pending
    return ⟨files, pending⟩

/-- Fetches an attached file. -/
def fetch {σ : Type} [AttachmentStore σ] (store : σ) (pending : PendingFile) :
    Except GraphError (PendingFile × ByteArray) :=
  match (StoreM.runIn store (AttachmentStore.get pending.file.fileId)).1 with
  | .error e => .error (.attachmentStore e)
  | .ok none =>
    .error (.attachmentMissing pending.nodeId pending.file.fileName pending.file.fileId)
  | .ok (some contents) => .ok (pending, contents)

/-- The directories that lead to a path and the path itself, each with a slash at its end. -/
def ancestors (path : String) : List String :=
  let parts := Path.split path
  (List.range parts.length).map fun i => Path.unsplit (parts.take (i + 1)) ++ "/"

/-- The first level of settings that no node has. -/
def missingLevel? (nodes : List Node) : Option NodeType :=
  NodeType.settingsTypes.find? fun t => !nodes.any fun n => n.type = t

/-- The archive of a graph, with attached files from a store. -/
def ofGraph {σ : Type} [AttachmentStore σ] (store : σ) (moduleBase : String) (g : Graph) :
    Except GraphError Archive := do
  let paths ← resolvePaths g.nodes
  ensureUnique paths
  match missingLevel? g.nodes with
  | some type => .error (.incompleteGraph type)
  | none =>
    let bootstrap : OwnedFile := ⟨bootstrapOwner, ConfigFile.bootstrapText.toUTF8⟩
    let start : Placement := ⟨SortedMap.empty.insert NodeType.defaultFileName bootstrap, []⟩
    let placement ← paths.toList.foldlM (placeNode g moduleBase paths) start
    let fetched ← placement.pending.reverse.mapM (fetch store)
    let files ← fetched.foldlM
      (fun files (pending, contents) =>
        placeFile paths files pending.path pending.nodeId contents) placement.files
    let directories := (paths.values.flatMap ancestors).map fun name => (name, ())
    return ⟨SortedMap.ofList directories, files.map (·.contents)⟩

/-- Writes one entry of an archive below a directory. -/
def unpackEntry (directory : String) (fs : FileSystem) (entry : ArchiveEntry) :
    Except FileError FileSystem := do
  let path := Path.join directory entry.name
  match entry.contents with
  | none => fs.createFolders path
  | some contents =>
    let fs ← fs.createFolders ((Path.parent? path).getD "")
    fs.write path contents

/-- Writes the entries of an archive below a directory, in their order. -/
def unpack (a : Archive) (directory : String) (fs : FileSystem) : Except FileError FileSystem := do
  let fs ← fs.createFolders directory
  a.entries.foldlM (unpackEntry directory) fs

end Archive

end InfraGraph
