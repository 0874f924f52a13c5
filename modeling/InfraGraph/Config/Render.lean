import InfraGraph.SortedMap

/-!
# Written configuration files

A generated file holds the source of its module, local variables, inputs and dependencies, in this
order.  Values of variables and inputs are expressions and stand as they are.
-/

namespace InfraGraph

/-- The parts of one generated configuration file. -/
structure ConfigFile where
  fileName : String
  /-- Where the module comes from, for nodes that are modules. -/
  moduleSource : Option String
  locals : SortedMap String
  inputs : SortedMap String
  /-- The directories that the node depends on, as seen from its own, by the names it uses. -/
  dependencies : SortedMap String

namespace ConfigFile

/-- The block that names the source of a module, and the one that includes the file at the top. -/
def sourceText (source : String) : String :=
  "\nterraform \x7b\n    source = \"" ++ source ++
    "\"\n\x7d\n\ninclude \"root\" \x7b\n    path = find_in_parent_folders()\n\x7d\n"

/-- One definition on a line of its own. -/
def definitionText (entry : String × String) : String :=
  "  " ++ entry.1 ++ " = " ++ entry.2 ++ "\n"

/-- Definitions, in the order of their names. -/
def definitionsText (definitions : SortedMap String) : String :=
  String.join (definitions.toList.map definitionText)

/-- The block of local variables, which is there even if it is empty. -/
def localsText (locals : SortedMap String) : String :=
  "\nlocals \x7b\n" ++ definitionsText locals ++ "\n\x7d\n"

/-- The inputs, if there are any. -/
def inputsText (inputs : SortedMap String) : String :=
  if inputs.isEmpty then "" else "\ninputs = \x7b\n" ++ definitionsText inputs ++ "\n\x7d\n"

/-- The block of one dependency. -/
def dependencyText (entry : String × String) : String :=
  "\ndependency \"" ++ entry.1 ++ "\" \x7b\n  config_path = \"" ++ entry.2 ++ "\"\n\x7d\n"

/-- The text of a configuration file. -/
def text (file : ConfigFile) : String :=
  "# " ++ file.fileName ++ "\n\n" ++ (file.moduleSource.map sourceText).getD "" ++
    localsText file.locals ++ inputsText file.inputs ++
    String.join (file.dependencies.toList.map dependencyText)

/-- The lines of the fixed file at the top of every generated tree. -/
def bootstrapLines : List String :=
  [
    "# ROOT",
    "",
    "# Terragrunt variables from parent files",
    "locals \x7b",
    "  account_vars = read_terragrunt_config(find_in_parent_folders(\"account.hcl\"))",
    "  region_vars = read_terragrunt_config(find_in_parent_folders(\"region.hcl\",\"dont_exist.hcl\"), \x7blocals = \x7b\x7d\x7d)",
    "  environment_vars = read_terragrunt_config(find_in_parent_folders(\"env.hcl\",\"dont_exist.hcl\"), \x7blocals = \x7b\x7d\x7d)",
    "  zone_vars = read_terragrunt_config(find_in_parent_folders(\"zone.hcl\", \"dont_exist.hcl\"), \x7blocals = \x7b\x7d\x7d)",
    "  tier_vars = read_terragrunt_config(find_in_parent_folders(\"tier.hcl\", \"dont_exist.hcl\"), \x7blocals = \x7b\x7d\x7d)",
    "\x7d",
    "",
    "# Global state template",
    "remote_state \x7b",
    "  backend = \"s3\"",
    "  config = \x7b",
    "    bucket  = \"storsvc-s3-$\x7blocal.account_vars.locals.agency_name\x7d-$\x7blocal.environment_vars.locals.env_name\x7d$\x7blocal.zone_vars.locals.zone_name\x7d-tfstate\"",
    "    key     = \"$\x7bpath_relative_to_include()\x7d/terragrunt_state.tfstate\"",
    "    region  = \"ap-southeast-1\"",
    "  \x7d",
    "\x7d",
    "",
    "# Map terragrunt variables to terraform input variables (like tfvars)",
    "inputs = merge(",
    "  local.account_vars.locals,",
    "  local.region_vars.locals,",
    "  local.environment_vars.locals,",
    "  local.zone_vars.locals,",
    "  local.tier_vars.locals",
    ")",
    "",
    "terraform \x7b",
    "  # before_hook \"credentials\" \x7b",
    "  #     commands = [\"init-from-module\", \"init\", \"validate\", \"plan\", \"apply\", \"destroy\", \"refresh\"]",
    "  #     execute = [\"yay\", \"$\x7blocal.account_vars.locals.account_ref\x7d\"]",
    "  # \x7d",
    "",
    "  # after_hook \"credentials_after\" \x7b",
    "  #     commands = [\"terragrunt-read-config\"]",
    "  #     execute = [\"yay\", \"$\x7blocal.account_vars.locals.account_ref\x7d\"]",
    "  # \x7d",
    "\x7d"
  ]

/-- The fixed file at the top of every generated tree. -/
def bootstrapText : String :=
  String.intercalate "\n" bootstrapLines

end ConfigFile

end InfraGraph
