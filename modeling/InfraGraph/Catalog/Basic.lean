import InfraGraph.Graph.NodeType
import InfraGraph.Hcl.Reader
import InfraGraph.Hcl.Writer
import InfraGraph.Json.Record
import InfraGraph.Json.Writer

/-!
# The catalog of modules

A module of the catalog has a name and the inputs that its variables declare.
-/

namespace InfraGraph

/-- A variable that a module accepts. -/
structure ModuleInput where
  name : String
  /-- The value that is taken if none is given, as an expression. -/
  default : Option String
  /-- The type of values, as an expression. -/
  type : Option String
  /-- Whether a value has to be given. -/
  required : Bool
  deriving DecidableEq, Repr

/-- A module of the catalog. -/
structure CatalogEntry where
  moduleName : String
  inputs : List ModuleInput
  deriving DecidableEq, Repr

namespace ModuleInput

/-- A text that may be missing, in JSON. -/
def textOrNull : Option String → Json
  | none => .null
  | some text => .ofString text

/-- An input in JSON. -/
def toJson (i : ModuleInput) : Json :=
  .ofMembers [("name", .ofString i.name), ("default", textOrNull i.default),
    ("type", textOrNull i.type), ("required", .bool i.required)]

/-- Reads an input. -/
def ofJson? (j : Json) : Option ModuleInput := do
  match ← j.record? ["name", "default", "type", "required"] with
  | [name, default, type, required] =>
    let name ← Json.required Json.string? name
    let default ← Json.withDefault none (Json.nullable? Json.string?) default
    let type ← Json.withDefault none (Json.nullable? Json.string?) type
    let required ← Json.required Json.bool? required
    return ⟨name, default, type, required⟩
  | _ => none

/-- What a block of a variable with a name declares. -/
def ofBlock (name : String) (block : Hcl.Block) : ModuleInput :=
  let lastText (key : String) : Option String :=
    ((block.body.attributes.reverse.find? fun entry => entry.1 = key).map (·.2)).map
      Hcl.Expression.text
  let default := lastText "default"
  ⟨name, default, lastText "type", default.isNone⟩

/-- The inputs that a body declares: one for each block of a variable that has a name. -/
def ofBody (body : Hcl.Body) : List ModuleInput :=
  body.blocks.filterMap fun block =>
    if block.type = "variable" then block.labels.head?.map fun name => ofBlock name block else none

/-- The inputs that the text of a file declares.  A file that isn't well-formed declares none. -/
def ofText (text : String) : List ModuleInput :=
  ((Hcl.parse? text).map ofBody).getD []

end ModuleInput

namespace CatalogEntry

/-- A module in JSON. -/
def toJson (e : CatalogEntry) : Json :=
  .ofMembers [("moduleName", .ofString e.moduleName),
    ("possibleInputs", .array (e.inputs.map ModuleInput.toJson))]

/-- Reads a module. -/
def ofJson? (j : Json) : Option CatalogEntry := do
  match ← j.record? ["moduleName", "possibleInputs"] with
  | [moduleName, inputs] =>
    return ⟨← Json.required Json.string? moduleName,
      ← Json.required (Json.list? ModuleInput.ofJson?) inputs⟩
  | _ => none

end CatalogEntry

/-- The modules of a catalog that may lie directly below a type. -/
def addableModules (parentType : NodeType) (catalog : List CatalogEntry) : List String :=
  (catalog.map (·.moduleName)).filter parentType.acceptsRemote

end InfraGraph
