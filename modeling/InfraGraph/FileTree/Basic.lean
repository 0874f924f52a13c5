import InfraGraph.SortedMap

/-!
# File trees

A tree is a file, a symbolic link or a folder of named trees.  The entries of a folder are kept in
ascending order of their names, which is the order of their bytes.
-/

namespace InfraGraph

/-- A tree of files. -/
inductive FileTree where
  /-- A plain file. -/
  | file (contents : ByteArray)
  /-- A symbolic link. -/
  | link (target : String)
  /-- A folder. -/
  | folder (entries : List (String × FileTree))

namespace FileTree

instance : Inhabited FileTree := ⟨.folder []⟩

/-- Whether a tree is a plain file. -/
def isFile : FileTree → Bool
  | .file _ => true
  | _ => false

/-- Whether a tree is a folder. -/
def isFolder : FileTree → Bool
  | .folder _ => true
  | _ => false

/-- The entries of a folder. -/
def entries : FileTree → List (String × FileTree)
  | .folder es => es
  | _ => []

/-- The contents of the plain files among some entries. -/
def plainFiles : List (String × FileTree) → List (String × ByteArray)
  | [] => []
  | (name, .file contents) :: rest => (name, contents) :: plainFiles rest
  | _ :: rest => plainFiles rest

/-- The part of a tree at a path.  Links aren't followed. -/
def find? : FileTree → (path : List String) → Option FileTree
  | t, [] => some t
  | .folder es, name :: rest => (Entries.find? name es).bind fun t => t.find? rest
  | _, _ :: _ => none

/-- Puts a tree at a path, making the folders that lead there.  Nothing happens if a file or a link
is in the way. -/
def insert (node : FileTree) : (path : List String) → FileTree → FileTree
  | [], _ => node
  | name :: rest, .folder es =>
    let child := (Entries.find? name es).getD (.folder [])
    .folder (Entries.insert name (insert node rest child) es)
  | _ :: _, t => t

/-- Takes away what is at a path. -/
def erase : (path : List String) → FileTree → FileTree
  | [], t => t
  | [name], .folder es => .folder (Entries.erase name es)
  | name :: rest, .folder es =>
    match Entries.find? name es with
    | some child => .folder (Entries.insert name (erase rest child) es)
    | none => .folder es
  | _ :: _, t => t

mutual

/-- The names of every folder in the tree are in strictly ascending order. -/
def WellFormed : FileTree → Prop
  | .file _ => True
  | .link _ => True
  | .folder es => Entries.Ascending es ∧ AllWellFormed es

/-- The trees among some entries are well-formed. -/
def AllWellFormed : List (String × FileTree) → Prop
  | [] => True
  | (_, t) :: rest => t.WellFormed ∧ AllWellFormed rest

end

mutual

/-- Everything below a tree that isn't a folder with something in it, with its path. -/
def leaves (path : List String) : FileTree → List (List String × FileTree)
  | .file contents => [(path, .file contents)]
  | .link target => [(path, .link target)]
  | .folder [] => [(path, .folder [])]
  | .folder es => leavesOf path es

/-- The leaves of some entries of the folder at a path. -/
def leavesOf (path : List String) : List (String × FileTree) → List (List String × FileTree)
  | [] => []
  | (name, t) :: rest => t.leaves (path ++ [name]) ++ leavesOf path rest

end

end FileTree

end InfraGraph
