import InfraGraph.Config.Fault
import InfraGraph.Graph.Basic

/-!
# What a scan of a tree yields

Nodes with the directories they were found in, and dependencies that still name directories.
-/

namespace InfraGraph

/-- A node found in a directory. -/
structure ScannedNode where
  node : Node
  /-- The directory, seen from the top of the tree. -/
  path : String
  /-- What is wrong with the node's configuration file. -/
  fault : Option ConfigFault

/-- A dependency as a configuration file states it.  Its target is only known by a path. -/
structure DependencyReference where
  sourceId : String
  /-- The directory of the node that depends on the other one. -/
  sourcePath : String
  /-- The directory of the other node, as seen from the source. -/
  configPath : String
  name : String
  deriving DecidableEq, Repr

/-- The nodes and dependencies of a tree. -/
structure ScanOutput where
  /-- A node comes before those below it. -/
  nodes : List ScannedNode
  dependencies : List DependencyReference

namespace ScanOutput

/-- Nothing found. -/
def empty : ScanOutput := ⟨[], []⟩

/-- What is found in one place and then in another. -/
def append (a b : ScanOutput) : ScanOutput :=
  ⟨a.nodes ++ b.nodes, a.dependencies ++ b.dependencies⟩

instance : Append ScanOutput := ⟨append⟩

end ScanOutput

end InfraGraph
