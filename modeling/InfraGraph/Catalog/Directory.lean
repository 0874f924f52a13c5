import InfraGraph.Catalog.Basic
import InfraGraph.FileTree.System
import InfraGraph.Graph.Error

/-!
# Catalogs of directories

Every directory below the root that has a file whose name starts with `variable` is a module, named
by its path.  Modules may lie in modules.
-/

namespace InfraGraph.Catalog

/-- How the names of files with variables start. -/
def variablesStart : String := "variable"

/-- Whether a file can hold the variables of a module. -/
def isVariablesFile (name : String) : Bool :=
  variablesStart.toList.isPrefixOf name.toList

/-- The first file among some entries that can hold variables. -/
def variablesFile? (entries : List (String × FileTree)) : Option (String × ByteArray) :=
  (FileTree.plainFiles entries).find? fun file => isVariablesFile file.1

/-- The module that a directory with some entries is, if it is one.  `path` is where the directory
lies, `name` are its names below the root. -/
def moduleOf (path : String) (name : List String) (entries : List (String × FileTree)) :
    Except GraphError (List CatalogEntry) :=
  match variablesFile? entries with
  | none => .ok []
  | some (file, contents) =>
    match String.fromUTF8? contents with
    | none => .error (.io (Path.join path file) .notText)
    | some text => .ok [⟨Path.unsplit name, ModuleInput.ofText text⟩]

mutual

/-- The modules at and below a directory, a directory before those in it. -/
def modulesAt (path : String) (name : List String) :
    FileTree → Except GraphError (List CatalogEntry)
  | .file _ => .ok []
  | .link _ => .ok []
  | .folder entries => do
    let own ← moduleOf path name entries
    let below ← modulesBelow path name entries
    return own ++ below

/-- The modules below a directory with some entries. -/
def modulesBelow (path : String) (name : List String) :
    List (String × FileTree) → Except GraphError (List CatalogEntry)
  | [] => .ok []
  | (entry, tree) :: rest => do
    let first ← modulesAt (Path.join path entry) (name ++ [entry]) tree
    let others ← modulesBelow path name rest
    return first ++ others

end

/-- The modules below the directory that a path leads to.  A file has none. -/
def ofDirectory (fs : FileSystem) (root : String) : Except GraphError (List CatalogEntry) :=
  match fs.node root with
  | .error e =>
    .error (.io root (.reported e.kind
      ("IO error for operation on " ++ root ++ ": " ++ e.message)))
  | .ok tree => modulesBelow root [] tree.entries

end InfraGraph.Catalog
