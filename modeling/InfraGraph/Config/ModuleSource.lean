/-!
# Sources of modules

A source is the place of the repository followed by a marker and the name of the module.  The name
is read back as what stands behind the first marker, with doubled slashes made single.
-/

namespace InfraGraph.ModuleSource

/-- Stands between the place of the repository and the name of a module. -/
def marker : String := "tg-modules//"

/-- Where modules come from if nothing else is said. -/
def defaultBase : String :=
  "git::git@sgts.gitlab-dedicated.com:wog/mha/ica-e-services/ica_common_services/app/aws_tg.git//" ++
    marker

/-- The source of a module. -/
def ofName (base name : String) : String :=
  base ++ name

/-- What stands behind the first occurrence of `mark` in a text. -/
def behindFirst? (mark : List Char) : List Char → Option (List Char)
  | [] => if mark = [] then some [] else none
  | c :: rest =>
    if mark.isPrefixOf (c :: rest) then some ((c :: rest).drop mark.length)
    else behindFirst? mark rest

/-- Replaces pairs of slashes by single ones, from the left. -/
def joinSlashes : List Char → List Char
  | '/' :: '/' :: rest => '/' :: joinSlashes rest
  | c :: rest => c :: joinSlashes rest
  | [] => []

/-- The name of the module that a source leads to. -/
def name? (source : String) : Option String :=
  match behindFirst? marker.toList source.toList with
  | none => none
  | some found =>
    let name := joinSlashes found
    if name = [] then none else some (String.ofList name)

end InfraGraph.ModuleSource
