import Mathlib.Data.List.Forall2
import InfraGraph.Graph.Basic

/-!
# Nodes in the order of their forest

A list of nodes may have every node right before all nodes below it.  Then the parents make a
forest: each node names one that comes earlier, and lies one level below it.
-/

namespace InfraGraph

/-- The nodes are those below a parent, each followed by the nodes below itself.  Those directly
below the parent have the given depth. -/
inductive IsForest : (parentId : Option String) → (depth : Nat) → List Node → Prop
  | nil {parentId : Option String} {depth : Nat} : IsForest parentId depth []
  | cons {parentId : Option String} {depth : Nat} {node : Node} {below rest : List Node}
    (hparent : node.parentId = parentId) (hdepth : node.depth = depth)
    (hbelow : IsForest (some node.id) (depth + 1) below) (hrest : IsForest parentId depth rest) :
    IsForest parentId depth (node :: (below ++ rest))

namespace IsForest

variable {parentId : Option String} {depth : Nat} {nodes nodes' : List Node}

/-- Nothing but ids, parents and depths counts. -/
theorem of_forall₂ (h : IsForest parentId depth nodes)
    (hsame : List.Forall₂ (fun node node' => node'.id = node.id ∧
      node'.parentId = node.parentId ∧ node'.depth = node.depth) nodes nodes') :
    IsForest parentId depth nodes' := by
  induction h generalizing nodes' with
  | nil =>
      obtain rfl := List.forall₂_nil_left_iff.1 hsame
      exact .nil
  | cons hparent hdepth _ _ ihbelow ihrest =>
      obtain ⟨node', others, ⟨hid, hparent', hdepth'⟩, hothers, rfl⟩ :=
        List.forall₂_cons_left_iff.1 hsame
      have hbelow' := ihbelow (List.forall₂_take_append _ _ _ hothers.flip).flip
      rw [← hid] at hbelow'
      rw [← List.take_append_drop _ others]
      exact .cons (hparent'.trans hparent) (hdepth'.trans hdepth) hbelow'
        (ihrest (List.forall₂_drop_append _ _ _ hothers.flip).flip)

/-- A node lies directly below the parent of the forest, or it has a parent that comes earlier. -/
theorem parent_before (h : IsForest parentId depth nodes) {front back : List Node} {node : Node}
    (hsplit : nodes = front ++ node :: back) :
    (node.parentId = parentId ∧ node.depth = depth) ∨
      ∃ parent ∈ front, node.parentId = some parent.id ∧ node.depth = parent.depth + 1 := by
  induction h generalizing front back with
  | nil => simp at hsplit
  | @cons parentId depth first below rest hparent hdepth _ _ ihbelow ihrest =>
      cases front with
      | nil =>
          obtain ⟨rfl, _⟩ := List.cons.inj hsplit
          exact .inl ⟨hparent, hdepth⟩
      | cons first' front =>
          obtain ⟨rfl, hrest'⟩ := List.cons.inj hsplit
          -- The node comes behind all nodes below the first one, or it is one of them.
          rcases List.append_eq_append_iff.1 hrest' with ⟨more, rfl, hrest⟩ | ⟨more, hbelow, hback⟩
          · rcases ihrest hrest with htop | ⟨above, habove, hnode⟩
            · exact .inl htop
            · exact .inr ⟨above, by simp [habove], hnode⟩
          · cases more with
            | nil =>
                have hrest : rest = [] ++ node :: back := by simpa using hback.symm
                rcases ihrest hrest with htop | ⟨above, habove, _⟩
                · exact .inl htop
                · exact absurd habove List.not_mem_nil
            | cons node' more =>
                obtain ⟨rfl, _⟩ := List.cons.inj hback
                rcases ihbelow hbelow with htop | ⟨above, habove, hnode⟩
                · exact .inr ⟨first, List.mem_cons_self, htop.1, hdepth ▸ htop.2⟩
                · exact .inr ⟨above, List.mem_cons_of_mem _ habove, hnode⟩

end IsForest

end InfraGraph
