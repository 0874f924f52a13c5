import InfraGraph.CommandLine.Run
import InfraGraph.FileTree.Changes

/-!
# The program

Loads the parts of the disk that a run can touch, runs it, and writes back what changed.  Nothing is
decided here.
-/

namespace InfraGraph.Main

open CommandLine

/-- The part of the disk that was loaded, and the real paths of what was loaded whole. -/
structure Loaded where
  files : FileSystem
  whole : List String

/-- The names of a path from the root. -/
def namesOf (path : String) : List String :=
  (Path.split path).filter (· ≠ "")

/-- Puts a tree where nothing is yet. -/
def Loaded.add (loaded : Loaded) (path : String) (node : FileTree) : Loaded :=
  match loaded.files.root.find? (namesOf path) with
  | some _ => loaded
  | none => { loaded with files := loaded.files.put (namesOf path) node }

/-- The path that an existing path stands for, without links. -/
def realPath? (path : String) : IO (Option String) := do
  try return some (toString (← IO.FS.realPath path)) catch _ => return none

/-- Loads everything at and below a real path, and what links there lead to. -/
partial def loadWhole (loaded : Loaded) (path : String) : IO Loaded := do
  if loaded.whole.contains path then return loaded
  let loaded := { loaded with whole := path :: loaded.whole }
  let place ← IO.FS.realPath path
  match (← place.metadata).type with
  | .file => return loaded.add path (.file (← IO.FS.readBinFile path))
  | .dir =>
    let mut loaded := loaded.add path (.folder [])
    for entry in ← place.readDir do
      let below := Path.join path entry.fileName
      match ← realPath? below with
      | none => pure ()
      | some real =>
        if real ≠ below then loaded := loaded.add below (.link real)
        loaded ← loadWhole loaded real
    return loaded
  | _ => return loaded

/-- Loads what is on the way to a path, and everything it leads to.  `here` is a real path. -/
partial def loadWay (loaded : Loaded) (here : String) : List String → IO Loaded
  | [] => loadWhole loaded here
  | name :: rest => do
    if name = "" ∨ name = "." then loadWay loaded here rest
    else if name = ".." then loadWay loaded ((Path.parent? here).getD "/") rest
    else
      let there := Path.join here name
      match ← realPath? there with
      | none => return loaded
      | some real =>
        let loaded := if real = there then loaded else loaded.add there (.link real)
        let isFolder := (← (← IO.FS.realPath real).metadata).type == .dir
        if rest.isEmpty || !isFolder then loadWhole loaded real
        else loadWay (loaded.add real (.folder [])) real rest

/-- Loads what a path leads to from the working directory. -/
def loadPath (loaded : Loaded) (path : String) : IO Loaded :=
  let start := if Path.isAbsolute path then [] else loaded.files.workingDirectory
  loadWay loaded ("/" ++ Path.unsplit start) (Path.split path)

/-- Writes a changed leaf to the disk. -/
def writeBack (path : List String) (leaf : FileTree) : IO Unit := do
  let place := "/" ++ Path.unsplit path
  match leaf with
  | .file contents =>
    IO.FS.createDirAll ((Path.parent? place).getD "/")
    IO.FS.writeBinFile place contents
  | .folder _ => IO.FS.createDirAll place
  | .link _ => pure ()

/-- The variables of the environment that a run asks for. -/
def loadEnvironment : IO Environment := do
  let names := "RUST_LOG" :: Parameter.named.filterMap Parameter.environmentName?
  let values ← names.mapM fun name => do return (name, ← IO.getEnv name)
  return fun name => (values.lookup name).join

/-- Reports on a run that didn't go well. -/
def report : RunStatus → IO Unit
  | .done => pure ()
  | .failed failure => IO.eprintln ("Error: " ++ failure.message)
  | .misused fault => IO.eprintln ("error: " ++ fault.message)

end InfraGraph.Main

open InfraGraph InfraGraph.CommandLine InfraGraph.Main in
/-- Runs the program on the disk. -/
def main (arguments : List String) : IO UInt32 := do
  let environment ← loadEnvironment
  let here := namesOf (toString (← IO.FS.realPath "."))
  let start : FileSystem := (⟨.folder [], here⟩ : FileSystem).put here (.folder [])
  let loaded ← (touchedPaths environment arguments).foldlM loadPath ⟨start, []⟩
  let seed := toString (← IO.rand 0 0x4000000000000000) ++ "-" ++ toString (← IO.monoNanosNow) ++ "-"
  let outcome := run arguments environment (NodeIds.ofSeed seed) loaded.files
  (FileTree.changes loaded.files.root outcome.files.root).forM fun (path, leaf) =>
    writeBack path leaf
  IO.print outcome.output
  report outcome.status
  return UInt32.ofNat outcome.status.exitCode
