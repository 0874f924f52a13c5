import InfraGraph.FileTree.Basic

/-!
# What changes in a tree

Two trees are compared by their leaves: files, links and empty folders.  What is new or different in
the later one is enough to make it from the earlier one, as long as nothing was taken away.
-/

namespace InfraGraph.FileTree

/-- Whether a leaf is still what it was.  A folder that became empty is no change. -/
def isSameLeaf : (before after : FileTree) → Bool
  | .file a, .file b => a == b
  | .link a, .link b => a == b
  | .folder _, .folder _ => true
  | _, _ => false

/-- The leaves of the later tree that the earlier one doesn't have, with their paths. -/
def changes (before after : FileTree) : List (List String × FileTree) :=
  (after.leaves []).filter fun (path, leaf) =>
    !(before.find? path).any fun earlier => isSameLeaf earlier leaf

end InfraGraph.FileTree
