import InfraGraph.Graph.Basic
import InfraGraph.Json.Record
import InfraGraph.Json.Writer

/-!
# Graphs as JSON

What can be left out of a graph has a value of its own: no nodes, no edges, depth zero, no values,
no files, the origin.  Edges are enabled unless they say otherwise.
-/

namespace InfraGraph

namespace FileRef

/-- The members of a reference to a file. -/
def members : List String := ["fileName", "fileId"]

/-- A reference to a file in JSON. -/
def toJson (f : FileRef) : Json :=
  .ofMembers [("fileName", .ofString f.fileName), ("fileId", .ofString f.fileId)]

/-- Reads a reference to a file. -/
def ofJson? (j : Json) : Option FileRef := do
  match ← j.record? members with
  | [fileName, fileId] =>
    return ⟨← Json.required Json.string? fileName, ← Json.required Json.string? fileId⟩
  | _ => none

end FileRef

namespace Position

/-- A position in JSON. -/
def toJson (number : Float → Json) (p : Position Float) : Json :=
  .ofMembers [("x", number p.x), ("y", number p.y)]

/-- Reads a position. -/
def ofJson? (j : Json) : Option (Position Float) := do
  match ← j.record? ["x", "y"] with
  | [x, y] => return ⟨← Json.required Json.float? x, ← Json.required Json.float? y⟩
  | _ => none

end Position

namespace Size

/-- An extent in JSON. -/
def toJson (number : Float → Json) (s : Size Float) : Json :=
  .ofMembers [("width", number s.width), ("height", number s.height)]

/-- Reads an extent. -/
def ofJson? (j : Json) : Option (Size Float) := do
  match ← j.record? ["width", "height"] with
  | [width, height] =>
    return ⟨← Json.required Json.float? width, ← Json.required Json.float? height⟩
  | _ => none

end Size

/-- A map from strings to strings in JSON. -/
def SortedMap.toJson (m : SortedMap String) : Json :=
  .ofMembers (m.toList.map fun (key, value) => (key, .ofString value))

/-- A member that is left out if it has no value. -/
def optionalMember (name : String) : Option String → List (String × Json)
  | none => []
  | some value => [(name, .ofString value)]

namespace Node

/-- The members of a node. -/
def members : List String :=
  ["id", "type", "parentId", "depth", "label", "locals", "inputs", "files", "position", "size"]

/-- The largest depth. -/
def maxDepth : Nat := 0xFFFFFFFF

/-- A node in JSON, with coordinates written by `number`. -/
def toJsonWith (number : Float → Json) (n : Node) : Json :=
  .ofMembers ([("id", .ofString n.id), ("type", .ofString n.type.name)] ++
    optionalMember "parentId" n.parentId ++
    [("depth", .ofNat n.depth), ("label", .ofString n.label), ("locals", n.locals.toJson),
      ("inputs", n.inputs.toJson), ("files", .array (n.files.map FileRef.toJson)),
      ("position", n.position.toJson number), ("size", n.size.toJson number)])

/-- Reads a node. -/
def ofJson? (j : Json) : Option Node := do
  match ← j.record? members with
  | [id, type, parentId, depth, label, locals, inputs, files, position, size] =>
    let id ← Json.required Json.string? id
    let type ← Json.required Json.string? type
    let parentId ← Json.withDefault none (Json.nullable? Json.string?) parentId
    let depth ← Json.withDefault 0 (Json.nat? maxDepth) depth
    let label ← Json.required Json.string? label
    let locals ← Json.withDefault .empty Json.stringMap? locals
    let inputs ← Json.withDefault .empty Json.stringMap? inputs
    let files ← Json.withDefault [] (Json.list? FileRef.ofJson?) files
    let position ← Json.withDefault Position.origin Position.ofJson? position
    let size ← Json.withDefault Size.none Size.ofJson? size
    return { id, type := NodeType.ofName type, parentId, depth, label, locals, inputs, files,
             position, size }
  | _ => none

end Node

namespace Edge

/-- The members of an edge. -/
def members : List String :=
  ["id", "source", "target", "dependencyName", "enabled", "sourceHandle", "targetHandle"]

/-- An edge in JSON. -/
def toJson (e : Edge) : Json :=
  .ofMembers ([("id", .ofString e.id), ("source", .ofString e.source),
      ("target", .ofString e.target)] ++
    optionalMember "dependencyName" e.dependencyName ++ [("enabled", .bool e.enabled)] ++
    optionalMember "sourceHandle" e.sourceHandle ++ optionalMember "targetHandle" e.targetHandle)

/-- Reads an edge. -/
def ofJson? (j : Json) : Option Edge := do
  match ← j.record? members with
  | [id, source, target, dependencyName, enabled, sourceHandle, targetHandle] =>
    let id ← Json.required Json.string? id
    let source ← Json.required Json.string? source
    let target ← Json.required Json.string? target
    let dependencyName ← Json.withDefault none (Json.nullable? Json.string?) dependencyName
    let enabled ← Json.withDefault true Json.bool? enabled
    let sourceHandle ← Json.withDefault none (Json.nullable? Json.string?) sourceHandle
    let targetHandle ← Json.withDefault none (Json.nullable? Json.string?) targetHandle
    return ⟨id, source, target, dependencyName, enabled, sourceHandle, targetHandle⟩
  | _ => none

end Edge

namespace Graph

/-- The members of a graph. -/
def members : List String := ["nodes", "edges"]

/-- A graph in JSON, with coordinates written by `number`. -/
def toJsonWith (number : Float → Json) (g : Graph) : Json :=
  .ofMembers [("nodes", .array (g.nodes.map (Node.toJsonWith number))),
    ("edges", .array (g.edges.map Edge.toJson))]

/-- A graph in JSON. -/
def toJson (g : Graph) : Json :=
  g.toJsonWith Json.ofFloat

/-- Reads a graph. -/
def ofJson? (j : Json) : Option Graph := do
  match ← j.record? members with
  | [nodes, edges] =>
    let nodes ← Json.withDefault [] (Json.list? Node.ofJson?) nodes
    let edges ← Json.withDefault [] (Json.list? Edge.ofJson?) edges
    return ⟨nodes, edges⟩
  | _ => none

/-- Reads the text of a graph. -/
def parse? (text : String) : Option Graph :=
  (Json.parse? text).bind ofJson?

end Graph

end InfraGraph
