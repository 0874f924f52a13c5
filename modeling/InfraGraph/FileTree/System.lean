import InfraGraph.FileTree.Basic
import InfraGraph.FileTree.Error
import InfraGraph.Path

/-!
# A file system as a value

The file system is the tree below the root and the working directory, where relative paths start.
A path is followed part by part: `..` leaves a folder, a symbolic link leads on from the folder it
lies in, and everything but the last part has to be there.
-/

namespace InfraGraph

/-- A file system. -/
structure FileSystem where
  /-- Everything there is. -/
  root : FileTree
  /-- Where relative paths start, as names from the root. -/
  workingDirectory : List String

namespace FileSystem

/-- What a path leads to: the names from the root without links, and what is there. -/
structure Place where
  path : List String
  node : Option FileTree

/-- How far a path can be followed without using a link. -/
inductive Descent where
  /-- The end is reached. -/
  | done (result : Except FileError Place)
  /-- A link in the folder `here` leads to `target`, and `rest` is still to be followed. -/
  | link (here : List String) (target : String) (rest : List String)

/-- The most bytes of a name. -/
def maxNameSize : Nat := 255

/-- The most bytes of a path. -/
def maxPathSize : Nat := 4095

/-- The most links that are followed for one path. -/
def maxLinks : Nat := 40

/-- Follows the parts of a path from the folder `here`.  A link at the very end is only used if
`follow` says so. -/
def descend (root : FileTree) (follow : Bool) : (here : List String) → List String → Descent
  | here, [] => .done (.ok ⟨here, root.find? here⟩)
  | here, part :: rest =>
    if part = "" ∨ part = "." then descend root follow here rest
    else if part = ".." then descend root follow here.dropLast rest
    else if maxNameSize < part.utf8ByteSize then .done (.error .nameTooLong)
    else
      let there := here ++ [part]
      match root.find? there with
      | none => if rest = [] then .done (.ok ⟨there, none⟩) else .done (.error .notFound)
      | some (.folder _) => descend root follow there rest
      | some (.file contents) =>
        if rest = [] then .done (.ok ⟨there, some (.file contents)⟩)
        else .done (.error .notADirectory)
      | some (.link target) =>
        if rest = [] ∧ !follow then .done (.ok ⟨there, some (.link target)⟩)
        else .link here target rest

/-- Follows a path and the links on it. -/
def followFrom (root : FileTree) (follow : Bool) :
    (links : Nat) → (here parts : List String) → Except FileError Place
  | 0, here, parts =>
    match descend root follow here parts with
    | .done result => result
    | .link _ _ _ => .error .tooManyLinks
  | links + 1, here, parts =>
    match descend root follow here parts with
    | .done result => result
    | .link folder target rest =>
      let start := if Path.isAbsolute target then [] else folder
      followFrom root follow links start (Path.split target ++ rest)

/-- Where a path leads.  A link at its end is used if `follow` says so. -/
def locate (fs : FileSystem) (path : String) (follow : Bool) : Except FileError Place :=
  if path.toList.contains (Char.ofNat 0) then .error .zeroInPath
  else if path = "" then .error .notFound
  else if maxPathSize < path.utf8ByteSize then .error .nameTooLong
  else
    let start := if Path.isAbsolute path then [] else fs.workingDirectory
    followFrom fs.root follow maxLinks start (Path.split path)

/-- What is at a path. -/
def node (fs : FileSystem) (path : String) : Except FileError FileTree := do
  match (← fs.locate path true).node with
  | some node => .ok node
  | none => .error .notFound

/-- Whether a plain file is at a path. -/
def isFile (fs : FileSystem) (path : String) : Bool :=
  match fs.node path with
  | .ok node => node.isFile
  | .error _ => false

/-- Whether a folder is at a path. -/
def isFolder (fs : FileSystem) (path : String) : Bool :=
  match fs.node path with
  | .ok node => node.isFolder
  | .error _ => false

/-- Whether anything is at a path. -/
def exists? (fs : FileSystem) (path : String) : Except FileError Bool :=
  match fs.node path with
  | .ok _ => .ok true
  | .error .notFound => .ok false
  | .error e => .error e

/-- The entries of the folder at a path. -/
def list (fs : FileSystem) (path : String) : Except FileError (List (String × FileTree)) := do
  match ← fs.node path with
  | .folder entries => .ok entries
  | _ => .error .notADirectory

/-- The contents of the file at a path. -/
def read (fs : FileSystem) (path : String) : Except FileError ByteArray := do
  match ← fs.node path with
  | .file contents => .ok contents
  | _ => .error .isADirectory

/-- The text of the file at a path. -/
def readText (fs : FileSystem) (path : String) : Except FileError String := do
  match String.fromUTF8? (← fs.read path) with
  | some text => .ok text
  | none => .error .notText

/-- Puts a tree at the end of a path without links. -/
def put (fs : FileSystem) (path : List String) (node : FileTree) : FileSystem :=
  { fs with root := FileTree.insert node path fs.root }

/-- Takes away what is at the end of a path without links. -/
def remove (fs : FileSystem) (path : List String) : FileSystem :=
  { fs with root := FileTree.erase path fs.root }

/-- Writes a file, in place of the one that is there. -/
def write (fs : FileSystem) (path : String) (contents : ByteArray) :
    Except FileError FileSystem := do
  let place ← fs.locate path true
  match place.node with
  | some (.folder _) => .error .isADirectory
  | _ => .ok (fs.put place.path (.file contents))

/-- A path without slashes at its end. -/
def withoutTrailingSlashes (path : String) : String :=
  let kept := (path.toList.reverse.dropWhile (· = '/')).reverse
  if kept = [] then path else String.ofList kept

/-- Makes a folder. -/
def createFolder (fs : FileSystem) (path : String) : Except FileError FileSystem := do
  let place ← fs.locate (withoutTrailingSlashes path) false
  match place.node with
  | some _ => .error .alreadyExists
  | none => .ok (fs.put place.path (.folder []))

/-- Makes a folder, unless one is there already. -/
def createFolderOnce (fs : FileSystem) (path : String) : Except FileError FileSystem :=
  match fs.createFolder path with
  | .ok made => .ok made
  | .error e => if fs.isFolder path then .ok fs else .error e

/-- Makes a folder and those above it, `levels` of them at most. -/
def createFoldersUp : (levels : Nat) → FileSystem → String → Except FileError FileSystem
  | 0, fs, _ => .ok fs
  | levels + 1, fs, path =>
    if path = "" then .ok fs
    else
      match fs.createFolder path with
      | .ok made => .ok made
      | .error .notFound =>
        match Path.parent? path with
        | none => .error .notFound
        | some parent =>
          match createFoldersUp levels fs parent with
          | .error e => .error e
          | .ok above => above.createFolderOnce path
      | .error e => if fs.isFolder path then .ok fs else .error e

/-- Makes a folder and those above it, as far as they aren't there. -/
def createFolders (fs : FileSystem) (path : String) : Except FileError FileSystem :=
  createFoldersUp (path.length + 1) fs path

/-- Moves a file, in place of the one that is there. -/
def move (fs : FileSystem) (source target : String) : Except FileError FileSystem := do
  let taken ← fs.locate source false
  match taken.node with
  | none => .error .notFound
  | some node =>
    let place ← fs.locate target false
    match place.node with
    | some (.folder _) => .error .isADirectory
    | _ => .ok ((fs.remove taken.path).put place.path node)

/-- Removes a file or a link. -/
def removeFile (fs : FileSystem) (path : String) : Except FileError FileSystem := do
  let place ← fs.locate path false
  match place.node with
  | none => .error .notFound
  | some (.folder _) => .error .isADirectory
  | some _ => .ok (fs.remove place.path)

/-- Removes a folder with everything in it.  A link is removed without what it leads to. -/
def removeFolders (fs : FileSystem) (path : String) : Except FileError FileSystem := do
  let place ← fs.locate path false
  match place.node with
  | none => .error .notFound
  | some (.file _) => .error .notADirectory
  | some _ => .ok (fs.remove place.path)

end FileSystem

end InfraGraph
