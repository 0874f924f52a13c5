import InfraGraph.Config.Extract
import InfraGraph.Config.ModuleSource
import InfraGraph.FileTree.System
import InfraGraph.Graph.Error
import InfraGraph.Import.NodeIds
import InfraGraph.Import.Scanned

/-!
# Scanning a tree

Every directory is a node.  The first settings file in it decides its type; without one a
configuration file that names a module makes it a module, and any other directory is a folder.
Directories without files that have no nodes below them are left out.  The other files of a
directory are attached to its node.

A scan goes through the whole tree and notes what is wrong on the way.  If anything is, the scan
fails with what lies least deep, and of that with what comes first.
-/

namespace InfraGraph

/-- A file that is to be attached to a node. -/
structure Upload where
  nodeId : String
  name : String
  contents : ByteArray

/-- The reference to a file that is to be attached. -/
def Upload.reference (upload : Upload) : FileRef :=
  ⟨upload.name, (Attachment.ofFile upload.name upload.nodeId upload.contents).id⟩

/-- What goes through a whole scan unchanged. -/
structure Scanner where
  /-- The directory that the paths of nodes are seen from. -/
  root : String
  /-- The random ids. -/
  draw : Nat → String

/-- What a scan of a part of a tree yields. -/
structure Scanned where
  output : ScanOutput
  uploads : List Upload
  /-- What is wrong, and how deep it lies. -/
  faults : List (Nat × GraphError)

namespace Scanned

/-- Nothing found. -/
def empty : Scanned := ⟨.empty, [], []⟩

/-- What is found in one place and then in another. -/
def append (a b : Scanned) : Scanned :=
  ⟨a.output ++ b.output, a.uploads ++ b.uploads, a.faults ++ b.faults⟩

instance : Append Scanned := ⟨append⟩

/-- Only a fault. -/
def ofFault (depth : Nat) (error : GraphError) : Scanned := ⟨.empty, [], [(depth, error)]⟩

/-- The fault that lies least deep, and of several the first one. -/
def worst? (faults : List (Nat × GraphError)) : Option GraphError :=
  match (faults.map (·.1)).min? with
  | none => none
  | some least => (faults.find? fun fault => fault.1 = least).map (·.2)

/-- The outcome of a scan. -/
def result (s : Scanned) : Except GraphError (ScanOutput × List Upload) :=
  match worst? s.faults with
  | some error => .error error
  | none => .ok (s.output, s.uploads)

end Scanned

/-- The configuration file that decides the type of a directory, and that type if the name of the
file says it. -/
inductive Classification where
  | settings (type : NodeType)
  | module
  | folder
  deriving DecidableEq, Repr

namespace Classification

/-- What the names of the plain files in a directory make it. -/
def ofFiles (names : List String) : Classification :=
  match NodeType.settingsTypes.find? fun t => names.contains t.outputFileName with
  | some type => settings type
  | none => if names.contains NodeType.defaultFileName then module else folder

/-- The name of the configuration file. -/
def fileName? : Classification → Option String
  | settings type => some type.outputFileName
  | module => some NodeType.defaultFileName
  | folder => none

end Classification

namespace Scanner

/-- A directory as seen from the root of a scan. -/
def relative (scanner : Scanner) (path : String) : String :=
  match Path.below? scanner.root path with
  | some parts => Path.unsplit parts
  | none => path

/-- The declarations in the contents of a configuration file. -/
def readConfig (contents : ByteArray) : Except ConfigFault ParsedConfig :=
  match String.fromUTF8? contents with
  | none => .error (.unreadable FileError.notText.message)
  | some text => ParsedConfig.parse text

/-- What a configuration file contributes to the node of its directory. -/
structure Settled where
  type : NodeType
  config : Option ParsedConfig
  fault : Option ConfigFault

/-- The type and declarations of a directory with a configuration file at `configPath`.  A module
has to name its source; a file that can't be used makes the directory a folder unless its name says
more. -/
def settle (classification : Classification) (configPath : String) (contents : ByteArray) :
    Except GraphError Settled :=
  match readConfig contents with
  | .error fault =>
    match classification with
    | .settings type => .ok ⟨type, none, some fault⟩
    | _ => .ok ⟨.folder, none, some fault⟩
  | .ok config =>
    match classification with
    | .settings type => .ok ⟨type, some config, none⟩
    | _ =>
      let source := config.source.getD ""
      match ModuleSource.name? source with
      | some module => .ok ⟨.remote module, some config, none⟩
      | none => .error (.invalidModuleSource configPath source)

/-- The configuration of a directory, which has none if it is a folder. -/
def settleFolder (classification : Classification) (path : String)
    (files : List (String × ByteArray)) : Except GraphError Settled :=
  match classification.fileName? with
  | none => .ok ⟨.folder, none, none⟩
  | some name =>
    settle classification (Path.join path name) ((Entries.find? name files).getD ByteArray.empty)

/-- The node of a directory. -/
def nodeOf (id label : String) (parentId : Option String) (depth : Nat) (settled : Settled)
    (files : List FileRef) : Node where
  id := id
  type := settled.type
  parentId := parentId
  depth := depth
  label := label
  locals := (settled.config.map (·.locals)).getD .empty
  inputs := (settled.config.map (·.inputs)).getD .empty
  files := files
  position := Position.origin
  size := Size.none

/-- The files of a directory that are attached to its node. -/
def uploadsOf (id : String) (classification : Classification) (files : List (String × ByteArray)) :
    List Upload :=
  (files.filter fun file => classification.fileName? ≠ some file.1).map fun file =>
    ⟨id, file.1, file.2⟩

/-- The files that the store would refuse. -/
def refusedUploads (depth : Nat) (uploads : List Upload) : List (Nat × GraphError) :=
  (uploads.filter fun upload => !Attachment.isValidName upload.name).map fun upload =>
    (depth + 1, .attachmentStore (.invalidName upload.name))

/-- What the directory of a node itself yields. -/
def ownOutput (id path label : String) (parentId : Option String) (depth : Nat)
    (settled : Settled) (uploads : List Upload) : Scanned :=
  let node := nodeOf id label parentId depth settled (uploads.map Upload.reference)
  let references := ((settled.config.map (·.dependencies)).getD []).map fun (name, configPath) =>
    (⟨id, path, configPath, name⟩ : DependencyReference)
  ⟨⟨[⟨node, path, settled.fault⟩], references⟩, uploads, refusedUploads depth uploads⟩

mutual

/-- Scans the directory at `path` and everything below it.  A directory at depth zero needs a
configuration file. -/
def scanFolder (scanner : Scanner) (path : String) (depth : Nat) (parentId : Option String)
    (ids : NodeIds) : FileTree → Scanned × NodeIds
  | .file _ => (.empty, ids)
  | .link _ => (.empty, ids)
  | .folder entries =>
    let files := FileTree.plainFiles entries
    let classification := Classification.ofFiles (files.map (·.1))
    if classification = .folder ∧ depth = 0 then (.ofFault depth (.rootConfigMissing path), ids)
    else
      let place := scanner.relative path
      let (id, ids) := ids.claim scanner.draw place
      match settleFolder classification path files with
      | .error error => (.ofFault depth error, ids)
      | .ok settled =>
        let (below, ids) := scanSubfolders scanner path (depth + 1) (some id) ids entries
        let uploads := uploadsOf id classification files
        if classification = .folder ∧ files.isEmpty ∧ below.output.nodes.isEmpty ∧
            below.faults.isEmpty then
          (.empty, ids.release id)
        else
          let label := (Path.fileName? path).getD place
          (ownOutput id place label parentId depth settled uploads ++ below, ids)

/-- Scans the folders among the entries of the directory at `path`. -/
def scanSubfolders (scanner : Scanner) (path : String) (depth : Nat) (parentId : Option String)
    (ids : NodeIds) : List (String × FileTree) → Scanned × NodeIds
  | [] => (.empty, ids)
  | (name, tree) :: rest =>
    let (first, ids) := scanFolder scanner (Path.join path name) depth parentId ids tree
    let (others, ids) := scanSubfolders scanner path depth parentId ids rest
    (first ++ others, ids)

end

/-- Scans the directory that a path leads to. -/
def scanPath (scanner : Scanner) (fs : FileSystem) (path : String) (depth : Nat)
    (parentId : Option String) (ids : NodeIds) : Scanned × NodeIds :=
  match fs.list path with
  | .error e => (.ofFault depth (.io path e), ids)
  | .ok entries => scanner.scanFolder path depth parentId ids (.folder entries)

end Scanner

end InfraGraph
