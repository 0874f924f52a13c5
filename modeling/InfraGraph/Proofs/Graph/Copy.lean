import InfraGraph.Proofs.Graph.Dependencies
import InfraGraph.Proofs.Graph.Lineage
import InfraGraph.Proofs.Graph.Paths

/-!
# Copies of graphs under other ids

A copy of a node has another id, and everything that its folder and its configuration file say is
the same.  Chains of parents are then the same as well, so copies lie in the same directories.
-/

namespace InfraGraph

/-- The node is there under another id.  Only nodes with a configuration file keep values. -/
structure Node.IsCopy (rename : String → String) (node copy : Node) : Prop where
  id : copy.id = rename node.id
  type : copy.type = node.type
  parentId : copy.parentId = node.parentId.map rename
  label : copy.label = node.label
  locals : copy.locals = if node.type.hasOutput then node.locals else .empty
  inputs : copy.inputs = if node.type.hasOutput then node.inputs else .empty

/-- Where an edge leads from and to, and under which name. -/
def Edge.ends (edge : Edge) : String × String × Option String :=
  (edge.source, edge.target, edge.dependencyName)

/-- The ends of an edge under other ids. -/
def Edge.endsUnder (rename : String → String) (edge : Edge) : String × String × Option String :=
  (rename edge.source, rename edge.target, edge.dependencyName)

/-! ### Places -/

/-- Related nodes have the same name, and their parents are related again. -/
structure KeepsPlaces (R : Node → Node → Prop) : Prop where
  type : ∀ {node copy}, R node copy → copy.type = node.type
  label : ∀ {node copy}, R node copy → copy.label = node.label
  top : ∀ {node copy}, R node copy → node.parentId = none → copy.parentId = none
  below : ∀ {node copy parent parentCopy}, R node copy → R parent parentCopy →
    node.parentId = some parent.id → copy.parentId = some parentCopy.id

section Copy

variable {R : Node → Node → Prop} {nodes copies lineage lineage' : List Node} {node : Node}
  {parts : List String}

theorem Node.IsCopy.keepsPlaces (rename : String → String) :
    KeepsPlaces (Node.IsCopy rename) := by
  refine ⟨fun h => h.type, fun h => h.label, fun h htop => ?_, fun h hparent hbelow => ?_⟩
  · rw [h.parentId, htop, Option.map_none]
  · rw [h.parentId, hbelow, Option.map_some, hparent.id]

/-- Nodes that are related to those of a lineage make a lineage. -/
theorem IsLineage.exists_copy (hR : KeepsPlaces R)
    (hcopies : ∀ node ∈ nodes, ∃ copy ∈ copies, R node copy) (h : IsLineage nodes lineage) :
    ∃ lineage', IsLineage copies lineage' ∧ List.Forall₂ R lineage lineage' := by
  induction lineage with
  | nil => exact ⟨[], trivial, .nil⟩
  | cons node above ih =>
      obtain ⟨above', hlineage, habove⟩ := ih h.tail
      obtain ⟨copy, hmem, hcopy⟩ := hcopies node h.1
      refine ⟨copy :: above', ⟨hmem, ?_, hlineage⟩, .cons hcopy habove⟩
      cases habove with
      | nil => exact hR.top hcopy h.2.1
      | cons hparent _ => exact hR.below hcopy hparent h.2.1

theorem directoryParts_copy (hR : KeepsPlaces R) (h : List.Forall₂ R lineage lineage') :
    directoryParts lineage' = directoryParts lineage := by
  induction h with
  | nil => rfl
  | cons hcopy _ ih => rw [directoryParts, directoryParts, hR.type hcopy, hR.label hcopy, ih]

/-- Related nodes lie in the same directories. -/
theorem LiesAt.exists_copy (hR : KeepsPlaces R)
    (hcopies : ∀ node ∈ nodes, ∃ copy ∈ copies, R node copy) (h : LiesAt nodes node parts) :
    ∃ copy, R node copy ∧ LiesAt copies copy parts := by
  obtain ⟨above, hlineage, rfl⟩ := h
  obtain ⟨lineage', hlineage', hcopied⟩ := hlineage.exists_copy hR hcopies
  have hparts := directoryParts_copy hR hcopied
  cases hcopied with
  | cons hcopy _ => exact ⟨_, hcopy, _, hlineage', hparts⟩

end Copy

/-! ### Edges of all nodes -/

theorem activeEdges_cons (edge : Edge) (edges : List Edge) (nodeId : String) :
    activeEdges (edge :: edges) nodeId =
      if edge.source = nodeId ∧ edge.enabled = true then edge :: activeEdges edges nodeId
      else activeEdges edges nodeId := by
  rw [activeEdges, List.filter_cons]
  simp only [decide_eq_true_eq]
  rfl

/-- Where ids are distinct, every enabled edge is active at the node that it starts at, and at no
other one. -/
theorem flatMap_activeEdges_perm {nodes : List Node} {edges : List Edge}
    (hids : DistinctIds nodes)
    (hsources : ∀ e ∈ edges, e.enabled = true → ∃ node ∈ nodes, node.id = e.source) :
    (nodes.flatMap fun node => activeEdges edges node.id).Perm
      (edges.filter fun e => e.enabled) := by
  induction edges with
  | nil =>
      have hnil : (nodes.flatMap fun node => activeEdges [] node.id) = [] :=
        List.flatMap_eq_nil_iff.2 fun _ _ => rfl
      rw [hnil]
      exact .nil
  | cons edge edges ih =>
      rw [List.forall_mem_cons] at hsources
      have hrest := ih hsources.2
      have hother : ∀ ns : List Node,
          (∀ node ∈ ns, ¬ (edge.source = node.id ∧ edge.enabled = true)) →
          (ns.flatMap fun node => activeEdges (edge :: edges) node.id) =
            ns.flatMap fun node => activeEdges edges node.id := by
        intro ns hns
        refine List.flatMap_congr fun node hnode => ?_
        rw [activeEdges_cons, if_neg (hns node hnode)]
      by_cases henabled : edge.enabled = true
      · obtain ⟨node, hnode, hid⟩ := hsources.1 henabled
        obtain ⟨front, back, rfl⟩ := List.append_of_mem hnode
        -- The edge is active at this node, and no other node has its id.
        rw [DistinctIds, List.map_append, List.map_cons, List.nodup_append] at hids
        obtain ⟨_, hback, hfront⟩ := hids
        have hbefore : ∀ n ∈ front, ¬ (edge.source = n.id ∧ edge.enabled = true) := by
          intro n hn hsame
          exact hfront _ (List.mem_map.2 ⟨n, hn, rfl⟩) _ List.mem_cons_self
            (hsame.1.symm.trans hid.symm)
        have hafter : ∀ n ∈ back, ¬ (edge.source = n.id ∧ edge.enabled = true) := by
          intro n hn hsame
          exact (List.nodup_cons.1 hback).1 (List.mem_map.2 ⟨n, hn, hsame.1.symm.trans hid.symm⟩)
        rw [List.flatMap_append, List.flatMap_cons] at hrest
        rw [List.flatMap_append, List.flatMap_cons, hother front hbefore, hother back hafter,
          activeEdges_cons, if_pos ⟨hid.symm, henabled⟩, List.filter_cons_of_pos henabled,
          List.cons_append]
        exact List.perm_middle.trans (hrest.cons edge)
      · rw [hother nodes fun _ _ hsame => henabled hsame.2, List.filter_cons_of_neg henabled]
        exact hrest

end InfraGraph
