import InfraGraph.Attachment.Basic
import InfraGraph.Graph.NodeType

/-!
# Failures of generating and importing

Generating stops at the first problem of the graph.  Importing only stops at problems that would
leave the graph inconsistent.
-/

namespace InfraGraph

/-- Why a graph can't be generated, or a tree can't be imported. -/
inductive GraphError where
  /-- The label of a node makes no directory name. -/
  | missingLabel (node : String)
  /-- A node lies below itself. -/
  | endlessNesting (node : String)
  /-- Two things would lie at the same path. -/
  | pathCollision (path first second : String)
  /-- There is no node of a level of settings. -/
  | incompleteGraph (type : NodeType)
  /-- An enabled edge has no name. -/
  | unnamedDependency (edge : String)
  /-- Two enabled edges of a node have the same name. -/
  | duplicateDependencyName (node name : String)
  /-- An enabled edge leads to a node without path. -/
  | unknownEdgeTarget (edge target : String)
  /-- A directory lacks its configuration file. -/
  | rootConfigMissing (path : String)
  /-- A source names no module. -/
  | invalidModuleSource (path source : String)
  /-- A dependency leads to a directory that has no node. -/
  | unresolvedDependency (sourcePath configPath name : String)
  /-- An attached file has a name with which it can't be placed. -/
  | invalidAttachmentName (node fileName : String)
  /-- An attached file isn't in the store. -/
  | attachmentMissing (node fileName id : String)
  /-- The store of attachments fails. -/
  | attachmentStore (error : StoreError)
  /-- A file operation fails. -/
  | io (path : String) (error : FileError)
  deriving DecidableEq, Repr

/-- The wording of a failure. -/
def GraphError.message : GraphError → String
  | missingLabel node => "node " ++ node ++ " has no usable label"
  | endlessNesting node => "node " ++ node ++ " lies below itself"
  | pathCollision path first second =>
    "nodes " ++ first ++ " and " ++ second ++ " both resolve to path " ++ path
  | incompleteGraph type => "Nodes are not fully plotted: missing " ++ type.name
  | unnamedDependency edge => "edge " ++ edge ++ " is enabled but has no dependency name"
  | duplicateDependencyName node name =>
    "node " ++ node ++ " declares dependency " ++ Text.quoted name ++ " more than once"
  | unknownEdgeTarget edge target =>
    "edge " ++ edge ++ " points to node " ++ target ++ ", which has no resolved path"
  | rootConfigMissing path => "no root " ++ NodeType.defaultFileName ++ " found in " ++ path
  | invalidModuleSource path source =>
    "invalid terraform source url in " ++ path ++ ": " ++ Text.quoted source
  | unresolvedDependency sourcePath configPath name =>
    "dependency " ++ Text.quoted name ++ " of " ++ sourcePath ++ " points to " ++ configPath ++
      ", which matches no scanned node"
  | invalidAttachmentName node fileName =>
    "attachment " ++ Text.quoted fileName ++ " of node " ++ node ++ " is not a plain file name"
  | attachmentMissing node fileName id =>
    "attachment " ++ id ++ " of node " ++ node ++ " (" ++ fileName ++ ") not found"
  | attachmentStore error => "attachment store error: " ++ error.message
  | io path error => "i/o error at " ++ path ++ ": " ++ error.message

end InfraGraph
