import InfraGraph.Archive.Zip
import InfraGraph.Attachment.Open
import InfraGraph.Catalog.Directory
import InfraGraph.CommandLine.Help
import InfraGraph.Graph.Json
import InfraGraph.Import.Tree

/-!
# Runs of the program

A run takes arguments, an environment and a file system, and leaves a status, printed text and a
file system.  A run that fails keeps what it wrote before.
-/

namespace InfraGraph.CommandLine

/-- Why a run fails. -/
inductive RunFailure where
  /-- The filter for reports is not well-formed. -/
  | filter (text : String)
  /-- The store can't be opened. -/
  | store (error : StoreError)
  /-- A file operation fails. -/
  | file (error : FileError)
  /-- The file with the graph holds something else. -/
  | noGraph
  /-- Generating or importing fails. -/
  | graph (error : GraphError)
  deriving DecidableEq, Repr

/-- The wording of a failure. -/
def RunFailure.message : RunFailure → String
  | filter text => "invalid RUST_LOG: " ++ Text.quoted text
  | store error => error.message
  | file error => error.message
  | noGraph => "the file does not hold a graph"
  | graph error => error.message

/-- What a run leaves. -/
inductive RunStatus where
  | done
  | failed (failure : RunFailure)
  | misused (fault : Misuse)
  deriving DecidableEq, Repr

/-- The exit code of a run. -/
def RunStatus.exitCode : RunStatus → Nat
  | done => 0
  | failed _ => 1
  | misused _ => 2

/-- A part of a run, which answers with what is to be printed. -/
abbrev RunM (α : Type) : Type := ExceptT RunFailure (StateM FileSystem) α

namespace RunM

/-- An outcome as part of a run. -/
def ofExcept {ε α : Type} (failure : ε → RunFailure) (outcome : Except ε α) : RunM α :=
  ExceptT.mk fun files =>
    match outcome with
    | .ok a => (.ok a, files)
    | .error e => (.error (failure e), files)

/-- Reads a file. -/
def readFile (path : String) : RunM ByteArray := do
  ofExcept .file ((← get).read path)

/-- Writes a file. -/
def writeFile (path : String) (contents : ByteArray) : RunM Unit := do
  set (← ofExcept .file ((← get).write path contents))

/-- Opens the store at an address. -/
def openStore (address : String) : RunM OpenStore := do
  let store ← ofExcept .store (OpenStore.ofAddress (← get) address)
  set (store.files?.getD (← get))
  return store

end RunM

open RunM

/-- Writes the archive of the graph in a file to another file. -/
def runGenerate (storeAddress moduleBase graph out : String) : RunM String := do
  let store ← openStore storeAddress
  let contents ← readFile graph
  match (String.fromUTF8? contents).bind Graph.parse? with
  | none => throw .noGraph
  | some g =>
    let archive ← ofExcept .graph (Archive.ofGraph store moduleBase g)
    writeFile out archive.toZip
    return ""

/-- Writes the graph of a tree to a file, or prints it. -/
def runImport (draw : Nat → String) (storeAddress directory : String) (out : Option String) :
    RunM String := do
  let store ← openStore storeAddress
  let (imported, store) := importTree (← get) directory .standard draw store
  set (store.files?.getD (← get))
  let text := (← ofExcept .graph imported).graph.toJson.prettyText
  match out with
  | some path =>
    writeFile path text.toUTF8
    return ""
  | none => return text ++ "\n"

/-- Prints the catalog of a directory.  A watch is over as soon as it has begun, since nothing can
interrupt it later. -/
def runCatalog (directory : String) (interval : Nat) (watch : Bool) : RunM String := do
  let found := Catalog.ofDirectory (← get) directory
  let entries ←
    if watch then
      pure ((Refresher.start interval fun _ => found.toOption).sleep 0).snapshot
    else ofExcept .graph found
  return (Json.array (entries.map CatalogEntry.toJson)).prettyText ++ "\n"

/-- Does what an invocation asks for. -/
def runInvocation (environment : Environment) (draw : Nat → String) (i : Invocation) :
    RunM String := do
  let filter := (environment "RUST_LOG").getD ""
  if ¬LogFilter.isValid filter then throw (.filter filter)
  match i.command with
  | .generate graph out => runGenerate i.storeAddress i.moduleBase graph out
  | .importTree directory out => runImport draw i.storeAddress directory out
  | .catalog directory interval watch => runCatalog directory interval watch

/-- The paths that a command starts from. -/
def Command.paths : Command → List String
  | .generate graph out => [graph, out]
  | .importTree directory out => directory :: out.toList
  | .catalog directory _ _ => [directory]

/-- The paths on which the outcome of a run depends. -/
def touchedPaths (environment : Environment) (arguments : List String) : List String :=
  match Invocation.parse environment arguments with
  | .error _ => []
  | .ok i =>
    match StoreAddress.parse i.storeAddress with
    | .ok (.directory path) => path :: i.command.paths
    | _ => i.command.paths

/-- What a run leaves. -/
structure Outcome where
  status : RunStatus
  /-- The printed text. -/
  output : String
  files : FileSystem

/-- Runs the program.  `draw` yields the random ids of the run. -/
def run (arguments : List String) (environment : Environment) (draw : Nat → String)
    (files : FileSystem) : Outcome :=
  match Invocation.parse environment arguments with
  | .error (.help topic) => ⟨.done, topic.text environment, files⟩
  | .error .version => ⟨.done, versionText, files⟩
  | .error (.misuse fault) => ⟨.misused fault, "", files⟩
  | .ok i =>
    match StateT.run (ExceptT.run (runInvocation environment draw i)) files with
    | (.ok output, files) => ⟨.done, output, files⟩
    | (.error failure, files) => ⟨.failed failure, "", files⟩

end InfraGraph.CommandLine
