import InfraGraph.FileTree.Error
import InfraGraph.Json.Record

/-!
# Configuration files that can't be used

A node whose configuration file can't be used stays in the graph, and what is wrong with the file is
kept beside it.
-/

namespace InfraGraph

/-- What is wrong with a configuration file. -/
inductive ConfigFault where
  /-- The file can't be read as text. -/
  | unreadable (message : String)
  /-- The file is well-formed, but doesn't say what it has to. -/
  | invalid (message : String)
  /-- The file isn't well-formed. -/
  | malformed
  deriving DecidableEq, Repr

namespace ConfigFault

/-- The name of the sort of a fault. -/
def kind : ConfigFault → String
  | unreadable _ => "unreadable"
  | invalid _ => "invalidHcl"
  | malformed => "invalidHcl"

/-- What is wrong.  A file that isn't well-formed has no wording of its own. -/
def message? : ConfigFault → Option String
  | unreadable message => some message
  | invalid message => some message
  | malformed => none

/-- The wording of a fault. -/
def display : ConfigFault → String
  | unreadable message => "Hcl file cannot be accessed: " ++ message
  | invalid message => "Hcl file invalid: " ++ message
  | malformed => "Hcl file invalid"

/-- Reads a fault from JSON. -/
def ofJson? (j : Json) : Option ConfigFault := do
  match ← j.record? ["kind", "message"] with
  | [kind, message] =>
    let kind ← Json.required Json.string? kind
    let message ← Json.required Json.string? message
    if kind = "unreadable" then return unreadable message
    else if kind = "invalidHcl" then return invalid message
    else none
  | _ => none

end ConfigFault

end InfraGraph
