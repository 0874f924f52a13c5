import InfraGraph.Config.Fault
import InfraGraph.Hcl.Reader
import InfraGraph.Hcl.Writer
import InfraGraph.SortedMap
import InfraGraph.Text.Quoted

/-!
# What a configuration file declares

Of a configuration file only the source of its module, its local variables, its inputs and its
dependencies count.  Values are written again as expressions on one line.
-/

namespace InfraGraph

/-- The declarations of a configuration file. -/
structure ParsedConfig where
  /-- The source of the module, if it is a plain string. -/
  source : Option String
  locals : SortedMap String
  inputs : SortedMap String
  /-- The names and directories of the dependencies, in their order. -/
  dependencies : List (String × String)

namespace ParsedConfig

/-- The text of a key of an object of inputs. -/
def keyText : Hcl.Key → String
  | .name name => name
  | .value (.string s) => s
  | .value key => key.text

/-- Adds the items of an object to the inputs. -/
def addItems (inputs : SortedMap String) (items : List (Hcl.Key × Hcl.Expression)) :
    SortedMap String :=
  items.foldl (fun inputs item => inputs.insert (keyText item.1) item.2.text) inputs

/-- Adds what an attribute at the top of a file says about inputs. -/
def addInputs (inputs : SortedMap String) (definition : String × Hcl.Expression) :
    Except ConfigFault (SortedMap String) :=
  if definition.1 = "inputs" then
    match definition.2 with
    | .object items => .ok (addItems inputs items)
    | other => .error (.invalid ("inputs must be an object, got " ++ other.text))
  else .ok inputs

/-- Adds the attributes of a block to the local variables. -/
def addLocals (locals : SortedMap String) (block : Hcl.Block) : SortedMap String :=
  block.body.attributes.foldl (fun locals entry => locals.insert entry.1 entry.2.text) locals

/-- The first attribute of a block with a key, if it is a plain string. -/
def stringAttribute? (block : Hcl.Block) (key : String) : Option String :=
  match block.attribute? key with
  | some (.string s) => some s
  | _ => none

/-- The directory of a dependency.  What isn't a plain string is kept as it is written. -/
def directoryText : Hcl.Expression → String
  | .string s => s
  | .template text => text
  | .heredoc _ _ text => text
  | other => other.text

/-- Adds a dependency, unless there is one of the same name. -/
def addDependency (dependencies : List (String × String)) (block : Hcl.Block) :
    Except ConfigFault (List (String × String)) :=
  match block.labels with
  | [] => .error (.invalid "dependency block without a name")
  | name :: _ =>
    if dependencies.any fun d => d.1 = name then .ok dependencies
    else
      match block.attribute? "config_path" with
      | none => .error (.invalid ("dependency " ++ Text.quoted name ++ " has no config_path"))
      | some path => .ok (dependencies ++ [(name, directoryText path)])

/-- Adds what a block at the top of a file declares. -/
def addBlock (config : ParsedConfig) (block : Hcl.Block) : Except ConfigFault ParsedConfig :=
  if block.type = "locals" then
    .ok { config with locals := addLocals config.locals block }
  else if block.type = "terraform" ∧ config.source.isNone then
    .ok { config with source := stringAttribute? block "source" }
  else if block.type = "dependency" then
    (addDependency config.dependencies block).map fun dependencies => { config with dependencies }
  else .ok config

/-- The declarations of a body.  Inputs are looked at before blocks. -/
def ofBody (body : Hcl.Body) : Except ConfigFault ParsedConfig := do
  let inputs ← body.attributes.foldlM addInputs .empty
  body.blocks.foldlM addBlock ⟨none, .empty, inputs, []⟩

/-- The declarations of the text of a file. -/
def parse (text : String) : Except ConfigFault ParsedConfig :=
  match Hcl.parse? text with
  | none => .error .malformed
  | some body => ofBody body

end ParsedConfig

end InfraGraph
