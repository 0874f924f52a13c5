import InfraGraph.Graph.NodeType
import InfraGraph.SortedMap

/-!
# The graph of an infrastructure

Nodes form a forest by naming their parents, and edges say which node depends on which.  Values of
local variables and inputs are expressions, kept as text.
-/

namespace InfraGraph

/-- A file attached to a node, kept in a store of attachments. -/
structure FileRef where
  fileName : String
  /-- The id of the attachment. -/
  fileId : String
  deriving DecidableEq, Repr

/-- Where the box of a node lies, seen from its parent. -/
structure Position (α : Type) where
  x : α
  y : α
  deriving DecidableEq, Repr

/-- The extent of the box of a node. -/
structure Size (α : Type) where
  width : α
  height : α
  deriving DecidableEq, Repr

/-- A node. -/
structure Node where
  id : String
  type : NodeType
  /-- The id of the parent.  A node without one lies at the top. -/
  parentId : Option String
  depth : Nat
  label : String
  /-- Local variables and their expressions. -/
  locals : SortedMap String
  /-- Inputs of the module and their expressions. -/
  inputs : SortedMap String
  files : List FileRef
  position : Position Float
  size : Size Float

/-- A dependency between two nodes. -/
structure Edge where
  id : String
  /-- The node that depends on the other one. -/
  source : String
  target : String
  /-- The name that the source uses for the target. -/
  dependencyName : Option String
  /-- Edges that aren't enabled are kept, but have no effect. -/
  enabled : Bool
  sourceHandle : Option String
  targetHandle : Option String
  deriving DecidableEq, Repr

/-- A graph. -/
structure Graph where
  nodes : List Node
  edges : List Edge

/-- The place of a node that was never laid out. -/
def Position.origin : Position Float := ⟨0, 0⟩

/-- The extent of a node that was never laid out. -/
def Size.none : Size Float := ⟨0, 0⟩

namespace Graph

/-- The graph without nodes. -/
def empty : Graph := ⟨[], []⟩

/-- The first node with an id. -/
def node? (g : Graph) (id : String) : Option Node :=
  g.nodes.find? fun n => n.id = id

/-- The edges that leave a node, in their order. -/
def outgoing (g : Graph) (id : String) : List Edge :=
  g.edges.filter fun e => e.source = id

end Graph

/-- The builtin types that can still be added below a parent.  A type is withheld if that very
parent has as many children of it as its rule allows. -/
def addableTypes (parentType : NodeType) (parentId : Option String) (nodes : List Node) :
    List NodeType :=
  let hasRoom (rule : ChildRule) : Bool :=
    match rule.limit with
    | Option.none => true
    | some limit => nodes.countP (fun n => n.parentId = parentId ∧ n.type = rule.type) < limit
  (parentType.childRules.filter hasRoom).map (·.type)

end InfraGraph
