import InfraGraph.Graph.Basic
import InfraGraph.Graph.Error
import InfraGraph.Path

/-!
# Directories of nodes

A node lies in the directory of its parent, under its label.  Nodes of type `root` have no
directory, so their children lie where they would lie.  Nodes whose parents don't lead to the top
have none either.
-/

namespace InfraGraph

/-- The directories of nodes, by their ids. -/
abbrev PathMap : Type := SortedMap String

/-- A label as the name of a directory: quotes are left out, slashes of both kinds become
underscores. -/
def sanitizeLabel (label : String) : String :=
  String.ofList ((label.toList.filter (· ≠ '"')).map fun c => if c = '/' ∨ c = '\\' then '_' else c)

/-- Whether a text can be the name of a directory below another one. -/
def isUsableName (name : String) : Bool :=
  name ≠ "" && name ≠ "." && name ≠ ".."

/-- A name below a directory, where the empty path is the top. -/
def belowDirectory (directory name : String) : String :=
  if directory = "" then name else directory ++ "/" ++ name

namespace Node

/-- The directory of a node below a given one, and the entry for it. -/
def place (node : Node) (above : String) : Except GraphError (String × List (String × String)) :=
  if node.type = .root then .ok (above, [])
  else
    let name := sanitizeLabel node.label
    if isUsableName name then
      let path := belowDirectory above name
      .ok (path, [(node.id, path)])
    else .error (.missingLabel node.id)

end Node

/-- The nodes that name a parent, or that name none. -/
def childrenOf (nodes : List Node) (parent : Option String) : List Node :=
  nodes.filter fun n => n.parentId = parent

/-- The directories of a node and of everything below it, a node before its children and children in
their order.  A chain of parents that is longer than the list of nodes never ends, which bounds
`depth`. -/
def placeBelow (nodes : List Node) :
    (depth : Nat) → (above : String) → Node → Except GraphError (List (String × String))
  | 0, _, node => .error (.endlessNesting node.id)
  | depth + 1, above, node => do
    let (path, entry) ← node.place above
    let below ← (childrenOf nodes (some node.id)).mapM fun child =>
      placeBelow nodes depth path child
    return entry ++ below.flatten

/-- The directories of all nodes that lie below the top. -/
def resolvePaths (nodes : List Node) : Except GraphError PathMap := do
  let placed ← (childrenOf nodes none).mapM fun node => placeBelow nodes nodes.length "" node
  return SortedMap.ofList placed.flatten

/-- The first value that comes again in a list of keys with values: the value, the key that it came
with first, and the key that it comes with again.  `seen` holds the entries before the list, the
last one first. -/
def firstRepeat? (seen : List (String × String)) :
    List (String × String) → Option (String × String × String)
  | [] => none
  | (key, value) :: rest =>
    match seen.find? fun entry => entry.2 = value with
    | some (first, _) => some (value, first, key)
    | none => firstRepeat? ((key, value) :: seen) rest

/-- Refuses maps that give two nodes the same directory. -/
def ensureUnique (paths : PathMap) : Except GraphError Unit :=
  match firstRepeat? [] paths.toList with
  | some (path, first, second) => .error (.pathCollision path first second)
  | none => .ok ()

end InfraGraph
