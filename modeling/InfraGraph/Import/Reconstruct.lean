import InfraGraph.Graph.Layout
import InfraGraph.Graph.Paths
import InfraGraph.Import.Scanned

/-!
# Graphs of scanned trees

The dependencies of a scan become edges between the nodes at the two directories, and the nodes are
laid out.
-/

namespace InfraGraph

/-- A graph that was read from a tree. -/
structure ImportedGraph where
  graph : Graph
  /-- What is wrong with configuration files, by the ids of their nodes. -/
  faults : SortedMap ConfigFault

/-- Where a dependency leads. -/
def DependencyReference.target (d : DependencyReference) : String :=
  Path.resolve d.sourcePath d.configPath

/-- The id of the node found in a directory. -/
def idAt? (nodes : List ScannedNode) (path : String) : Option String :=
  (nodes.find? fun n => n.path = path).map fun n => n.node.id

/-- The id of an edge between two nodes.  A second edge between the same nodes has its name
appended. -/
def edgeId (taken : List String) (source target name : String) : String :=
  let id := "edge-" ++ source ++ "_out-" ++ target ++ "_in"
  if taken.contains id then id ++ "-" ++ name else id

/-- The edges of some dependencies, given the ids of the edges before them. -/
def edgesOf (nodes : List ScannedNode) (taken : List String) :
    List DependencyReference → Except GraphError (List Edge)
  | [] => .ok []
  | d :: rest =>
    match idAt? nodes d.target with
    | none => .error (.unresolvedDependency d.sourcePath d.configPath d.name)
    | some target =>
      let id := edgeId taken d.sourceId target d.name
      let edge : Edge := ⟨id, d.sourceId, target, some d.name, true, some "out", some "in"⟩
      (edgesOf nodes (id :: taken) rest).map (edge :: ·)

/-- The faults of the nodes that have one. -/
def faultsOf (nodes : List ScannedNode) : SortedMap ConfigFault :=
  SortedMap.ofList (nodes.filterMap fun n => n.fault.map fun fault => (n.node.id, fault))

/-- The graph of a scanned tree.  Every dependency has to lead to a directory with a node. -/
def reconstruct (scanned : ScanOutput) (options : LayoutOptions Float) :
    Except GraphError ImportedGraph :=
  match firstRepeat? [] (scanned.nodes.map fun n => (n.node.id, n.path)) with
  | some (path, first, second) => .error (.pathCollision path first second)
  | none => do
    let edges ← edgesOf scanned.nodes [] scanned.dependencies
    let nodes := layoutNodes options (scanned.nodes.map (·.node))
    return ⟨⟨nodes, edges⟩, faultsOf scanned.nodes⟩

end InfraGraph
