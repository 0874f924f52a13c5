import InfraGraph.Digest.Md5
import InfraGraph.Text.Hex

/-!
# Ids of scanned nodes

The id of a node comes from its directory, so the same tree has the same ids whenever it is scanned.
If that id is taken a random one is used, and an id that isn't needed after all is given back.
-/

namespace InfraGraph

/-- The ids in use during a scan. -/
structure NodeIds where
  used : List String
  /-- How many random ids were drawn. -/
  drawn : Nat

namespace NodeIds

/-- No id is in use. -/
def empty : NodeIds := ⟨[], 0⟩

/-- The id that comes from a directory. -/
def ofPath (path : String) : String :=
  Text.hexOfBytes (Digest.Md5.hash path.toUTF8)

/-- The random id with a number, drawn from a seed: sixteen bytes in five groups, with the bits that
mark them as random. -/
def ofSeed (seed : String) (number : Nat) : String :=
  let digits := (Text.hexOfBytes (Digest.Md5.hash (seed ++ toString number).toUTF8)).toList
  let group (start length : Nat) := (digits.drop start).take length
  String.ofList (group 0 8 ++ '-' :: group 8 4 ++ '-' :: '4' :: group 13 3 ++ '-' :: '8' ::
    group 17 3 ++ '-' :: group 20 12)

/-- The first drawn id that isn't in use, from the one with number `next`.  If all draws are in use
an id is made that is longer than any of them. -/
def pickFresh (draw : Nat → String) (used : List String) : (attempts next : Nat) → String × Nat
  | 0, next => (String.join used ++ "-", next)
  | attempts + 1, next =>
    if used.contains (draw next) then pickFresh draw used attempts (next + 1)
    else (draw next, next + 1)

/-- Takes an id for a directory into use. -/
def claim (draw : Nat → String) (ids : NodeIds) (path : String) : String × NodeIds :=
  if ids.used.contains (ofPath path) then
    let (id, drawn) := pickFresh draw ids.used (ids.used.length + 1) ids.drawn
    (id, ⟨id :: ids.used, drawn⟩)
  else (ofPath path, { ids with used := ofPath path :: ids.used })

/-- Gives an id back. -/
def release (ids : NodeIds) (id : String) : NodeIds :=
  { ids with used := ids.used.erase id }

end NodeIds

end InfraGraph
