/-!
# Paths as text

A path is a string whose parts are separated by slashes.  The functions here work on the text
alone, no file system is asked.  Repeated slashes and `.` parts in the middle of a path have no
meaning, so they are left out where a path is taken apart.
-/

namespace InfraGraph.Path

/-- The pieces of a text between slashes, empty ones included. -/
def pieces : List Char → List (List Char)
  | [] => [[]]
  | c :: rest =>
    if c = '/' then [] :: pieces rest
    else
      match pieces rest with
      | [] => [[c]]
      | piece :: more => (c :: piece) :: more

/-- The pieces of a path between slashes, empty ones included. -/
def split (path : String) : List String :=
  (pieces path.toList).map String.ofList

/-- Parts with slashes between them. -/
def unsplit (parts : List String) : String :=
  String.intercalate "/" parts

/-- Whether a path starts at the root. -/
def isAbsolute (path : String) : Bool :=
  path.toList.head? = some '/'

/-- The components of a path.  An absolute path has `/` as its first one, and a relative path that
starts with `.` keeps that one. -/
def components (path : String) : List String :=
  let parts := split path
  let names := parts.filter fun part => part ≠ "" ∧ part ≠ "."
  if isAbsolute path then "/" :: names
  else if parts.head? = some "." then "." :: names
  else names

/-- A path below another one.  An absolute path stays as it is. -/
def join (base path : String) : String :=
  if isAbsolute path then path
  else if base = "" then path
  else if base.toList.getLast? = some '/' then base ++ path
  else base ++ "/" ++ path

/-- Whether a component is the name of a file or directory. -/
def isName (component : String) : Bool :=
  component ≠ "/" ∧ component ≠ "." ∧ component ≠ ".."

/-- The last component of a path, if it is a name. -/
def fileName? (path : String) : Option String :=
  ((components path).getLast?).filter isName

/-- The components as a path again. -/
def ofComponents : List String → String
  | "/" :: names => "/" ++ unsplit names
  | names => unsplit names

/-- The path without its last component. -/
def parent? (path : String) : Option String :=
  match components path with
  | [] => none
  | ["/"] => none
  | parts => some (ofComponents parts.dropLast)

/-- The end of a file name behind its last dot, unless the dot is its first character. -/
def extension? (name : String) : Option String :=
  let reversed := name.toList.reverse
  let ending := reversed.takeWhile (· ≠ '.')
  match reversed.dropWhile (· ≠ '.') with
  | [] => none
  | [_] => none
  | _ => if name = ".." then none else some (String.ofList ending.reverse)

/-- The rest of a list behind another list that it starts with. -/
def stripFront? : List String → List String → Option (List String)
  | [], rest => some rest
  | _ :: _, [] => none
  | a :: front, b :: rest => if a = b then stripFront? front rest else none

/-- The components of a path behind those of `base`, if it starts with them. -/
def below? (base path : String) : Option (List String) :=
  stripFront? (components base) (components path)

/-- Removes `.` and `..` from the parts of a path, given the parts that are kept so far, the last
one first.  At the root there is nothing above, elsewhere `..` stays if nothing is left to
remove. -/
def cleanParts (rooted : Bool) : (kept : List String) → List String → List String
  | kept, [] => kept.reverse
  | kept, part :: rest =>
    if part = "" ∨ part = "." then cleanParts rooted kept rest
    else if part = ".." then
      match kept with
      | [] => cleanParts rooted (if rooted then [] else [".."]) rest
      | top :: under =>
        if top = ".." then cleanParts rooted (".." :: top :: under) rest
        else cleanParts rooted under rest
    else cleanParts rooted (part :: kept) rest

/-- A path without `.`, `..` and repeated slashes, as far as that is possible. -/
def clean (path : String) : String :=
  let rooted := isAbsolute path
  let kept := unsplit (cleanParts rooted [] (split path))
  if rooted then "/" ++ kept else if kept = "" then "." else kept

/-- The number of leading elements that two lists share. -/
def commonLength : List String → List String → Nat
  | a :: as, b :: bs => if a = b then commonLength as bs + 1 else 0
  | _, _ => 0

/-- The path of `target` as seen from the directory `source`.  One `..` leads out of every part of
`source` that isn't shared. -/
def relative (source target : String) : String :=
  let source := (split source).filter (· ≠ "")
  let target := (split target).filter (· ≠ "")
  let common := commonLength source target
  let steps := List.replicate (source.length - common) ".." ++ target.drop common
  if steps = [] then "." else unsplit steps

/-- The path that `path` means in the directory `base`, without `.` and `..`. -/
def resolve (base path : String) : String :=
  unsplit (components (clean (join base path)))

end InfraGraph.Path
