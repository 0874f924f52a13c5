import InfraGraph.Graph.Paths

/-!
# Dependencies of a node

The enabled edges of a node become named references to the directories of their targets, as seen
from the directory of the node.
-/

namespace InfraGraph

/-- Adds the dependency of an enabled edge to those of its source. -/
def addDependency (nodePath : String) (paths : PathMap) (dependencies : SortedMap String)
    (edge : Edge) : Except GraphError (SortedMap String) :=
  match edge.dependencyName with
  | none => .error (.unnamedDependency edge.id)
  | some name =>
    if name = "" then .error (.unnamedDependency edge.id)
    else
      match paths.find? edge.target with
      | none => .error (.unknownEdgeTarget edge.id edge.target)
      | some target =>
        if dependencies.contains name then
          .error (.duplicateDependencyName edge.source name)
        else .ok (dependencies.insert name (Path.relative nodePath target))

/-- The dependencies of the node with an id, which lies at `nodePath`.  Edges that aren't enabled or
leave other nodes are passed over. -/
def resolveDependencies (nodeId nodePath : String) (edges : List Edge) (paths : PathMap) :
    Except GraphError (SortedMap String) :=
  (edges.filter fun e => e.source = nodeId ∧ e.enabled).foldlM (addDependency nodePath paths) .empty

end InfraGraph
