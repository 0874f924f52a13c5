/-!
# Types of nodes

Five levels of settings, folders and files are builtin types.  Every other type is a module of the
catalog, named by its path there.  A type decides which file its nodes get, and what may lie
directly below them.
-/

namespace InfraGraph

/-- The type of a node. -/
inductive NodeType where
  /-- The top of the tree, which has no directory of its own. -/
  | root
  | account
  | environment
  | region
  | zone
  | tier
  | folder
  | file
  /-- A module of the catalog. -/
  | remote (module : String)
  deriving DecidableEq, Repr

/-- A type that may lie directly below another one, and how often. -/
structure ChildRule where
  type : NodeType
  /-- The most children of the type below one parent. -/
  limit : Option Nat
  deriving DecidableEq, Repr

namespace NodeType

/-- The name of the file that a type generates if it has no name of its own for it, and of the
fixed file at the top of a tree. -/
def defaultFileName : String := "terragrunt.hcl"

/-- The levels of settings, from the top down.  Every generated tree has at least one of each. -/
def settingsTypes : List NodeType := [account, environment, region, zone, tier]

/-- The name of the configuration file of a type. -/
def outputFileName : NodeType → String
  | account => "account.hcl"
  | environment => "env.hcl"
  | region => "region.hcl"
  | zone => "zone.hcl"
  | tier => "tier.hcl"
  | root => defaultFileName
  | folder => defaultFileName
  | file => defaultFileName
  | remote _ => defaultFileName

/-- Whether nodes of the type get a configuration file. -/
def hasOutput : NodeType → Bool
  | root => false
  | folder => false
  | file => false
  | _ => true

/-- The local values that nodes of the type are expected to define. -/
def requiredLocals : NodeType → List String
  | account => ["agency_name", "account_ref", "proj_code", "name_format"]
  | environment => ["env_name"]
  | region => ["region"]
  | zone => ["zone_name", "zone_desc"]
  | tier => ["tier_name", "tier_desc"]
  | _ => []

/-- Whether modules of the catalog may lie directly below the type. -/
def acceptsRemoteChildren : NodeType → Bool
  | tier => true
  | folder => true
  | _ => false

/-- Whether the module with a name may lie directly below the type. -/
def acceptsRemote (t : NodeType) (module : String) : Bool :=
  module ≠ "" && t.acceptsRemoteChildren

/-- The builtin types that may lie directly below the type. -/
def childRules : NodeType → List ChildRule
  | root => [⟨account, some 1⟩]
  | account => [⟨environment, some 1⟩]
  | environment => [⟨region, some 1⟩]
  | region => [⟨zone, some 2⟩]
  | zone => [⟨tier, none⟩]
  | tier => [⟨folder, none⟩, ⟨file, none⟩]
  | folder => [⟨folder, none⟩, ⟨file, none⟩]
  | file => []
  | remote _ => []

/-- Whether the type is a level of settings. -/
def isSettings (t : NodeType) : Bool :=
  settingsTypes.contains t

/-- The name of the module, for the types of the catalog. -/
def module? : NodeType → Option String
  | remote module => some module
  | _ => none

/-- The type whose configuration file has a name, among the levels of settings. -/
def ofSettingsFile? (name : String) : Option NodeType :=
  settingsTypes.find? fun t => t.outputFileName = name

/-- The name of a type. -/
def name : NodeType → String
  | root => "Root"
  | account => "AccountSettings"
  | environment => "EnvironmentSettings"
  | region => "RegionSettings"
  | zone => "ZoneSettings"
  | tier => "TierSettings"
  | folder => "Folder"
  | file => "File"
  | remote module => module

/-- The type with a name.  A name that is no builtin type is that of a module. -/
def ofName (name : String) : NodeType :=
  if name = "Root" then root
  else if name = "AccountSettings" then account
  else if name = "EnvironmentSettings" then environment
  else if name = "RegionSettings" then region
  else if name = "ZoneSettings" then zone
  else if name = "TierSettings" then tier
  else if name = "Folder" then folder
  else if name = "File" then file
  else remote name

/-- The place of a type in the order of types, where all modules share the last one. -/
def rank : NodeType → Nat
  | root => 0
  | account => 1
  | environment => 2
  | region => 3
  | zone => 4
  | tier => 5
  | folder => 6
  | file => 7
  | remote _ => 8

/-- The order of types.  Modules come last, in the order of their names. -/
def before (a b : NodeType) : Bool :=
  if a.rank = b.rank then (a.module?.getD "") ≤ (b.module?.getD "") else a.rank < b.rank

/-- Types in their order. -/
def sorted (types : List NodeType) : List NodeType :=
  types.mergeSort before

end NodeType

end InfraGraph
