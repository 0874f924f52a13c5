import Mathlib.Data.Option.Basic
import InfraGraph.Graph.Dependencies
import InfraGraph.Proofs.Failure
import InfraGraph.Proofs.SortedMap

/-!
# Dependencies of a node, all at once

Dependencies are added one edge after the other, and an edge may be refused because of those before
it.  Whether all are accepted depends on the edges as a whole: each needs a name and a target with a
directory, and no name may come twice.  The result then has one entry for each edge.
-/

namespace InfraGraph

/-- The enabled edges that leave the node with an id, in their order. -/
def activeEdges (edges : List Edge) (nodeId : String) : List Edge :=
  edges.filter fun e => e.source = nodeId ∧ e.enabled

/-- The edge has a name, and its target has a directory. -/
structure Edge.IsResolvable (paths : PathMap) (edge : Edge) : Prop where
  named : ∃ name, edge.dependencyName = some name ∧ name ≠ ""
  placed : ∃ target, paths.find? edge.target = some target

/-- The name of an edge, and the directory of its target as seen from that of its source. -/
def Edge.dependency (nodePath : String) (paths : PathMap) (edge : Edge) : String × String :=
  (edge.dependencyName.getD "", Path.relative nodePath ((paths.find? edge.target).getD ""))

section Dependencies

variable {nodePath : String} {paths : PathMap} {edges : List Edge}

theorem mem_activeEdges {nodeId : String} {edge : Edge} :
    edge ∈ activeEdges edges nodeId ↔
      edge ∈ edges ∧ edge.source = nodeId ∧ edge.enabled = true := by
  simp [activeEdges]

theorem activeEdges_outgoing (g : Graph) (nodeId : String) :
    activeEdges (g.outgoing nodeId) nodeId = activeEdges g.edges nodeId := by
  simp only [activeEdges, Graph.outgoing, List.filter_filter]
  refine List.filter_congr fun e _ => ?_
  by_cases h : e.source = nodeId <;> simp [h]

theorem Edge.IsResolvable.dependencyName {edge : Edge} (h : edge.IsResolvable paths) :
    edge.dependencyName = some (edge.dependency nodePath paths).1 := by
  obtain ⟨name, hname, _⟩ := h.named
  simp [Edge.dependency, hname]

/-- An edge is accepted when it is resolvable and its name is new. -/
theorem addDependency_eq_ok_iff {dependencies result : SortedMap String} {edge : Edge} :
    addDependency nodePath paths dependencies edge = .ok result ↔
      edge.IsResolvable paths ∧
        (edge.dependency nodePath paths).1 ∉ dependencies.keys ∧
        result = dependencies.insert (edge.dependency nodePath paths).1
          (edge.dependency nodePath paths).2 := by
  unfold addDependency
  constructor
  · intro h
    split at h
    · simp at h
    · rename_i name hname
      split at h
      · simp at h
      · rename_i hempty
        split at h
        · simp at h
        · rename_i target htarget
          split at h
          · simp at h
          · rename_i hnew
            refine ⟨⟨⟨name, hname, hempty⟩, target, htarget⟩, ?_, ?_⟩
            · rw [← SortedMap.find?_eq_none_iff]
              simpa [Edge.dependency, hname, SortedMap.contains] using hnew
            · simpa [Edge.dependency, hname, htarget, eq_comm] using h
  · rintro ⟨⟨⟨name, hname, hempty⟩, target, htarget⟩, hnew, rfl⟩
    rw [← SortedMap.find?_eq_none_iff] at hnew
    have hfresh : dependencies.find? name = none := by
      simpa [Edge.dependency, hname] using hnew
    simp [Edge.dependency, hname, hempty, htarget, SortedMap.contains, hfresh]

/-- The enabled edges of the node with an id all make dependencies. -/
structure DependenciesResolve (edges : List Edge) (paths : PathMap) (nodeId : String) : Prop where
  resolvable : ∀ e ∈ activeEdges edges nodeId, e.IsResolvable paths
  names_nodup : ((activeEdges edges nodeId).map (·.dependencyName)).Nodup

/-- The dependencies of the node with an id, if its edges make them. -/
def dependenciesOf (edges : List Edge) (paths : PathMap) (nodeId nodePath : String) :
    SortedMap String :=
  SortedMap.ofList ((activeEdges edges nodeId).map (·.dependency nodePath paths))

theorem DependenciesResolve.keys_nodup {nodeId : String}
    (h : DependenciesResolve edges paths nodeId) (nodePath : String) :
    ((activeEdges edges nodeId).map fun e => (e.dependency nodePath paths).1).Nodup := by
  have hnames : (activeEdges edges nodeId).map (·.dependencyName) =
      ((activeEdges edges nodeId).map fun e => (e.dependency nodePath paths).1).map some := by
    rw [List.map_map]
    exact List.map_congr_left fun e he => (h.resolvable e he).dependencyName
  exact List.Nodup.of_map some (hnames ▸ h.names_nodup)

/-- Dependencies resolve exactly when each enabled edge of the node is resolvable and no two have
the same name, and then there is one entry for each of these edges. -/
theorem resolveDependencies_eq_ok_iff {nodeId : String} {dependencies : SortedMap String} :
    resolveDependencies nodeId nodePath edges paths = .ok dependencies ↔
      DependenciesResolve edges paths nodeId ∧
        dependencies = dependenciesOf edges paths nodeId nodePath := by
  rw [resolveDependencies, ← activeEdges, SortedMap.foldlM_eq_ok_iff_insertAll fun deps e result =>
    @addDependency_eq_ok_iff nodePath paths deps result e]
  constructor
  · rintro ⟨hall, hnodup, _, rfl⟩
    have hnames : (activeEdges edges nodeId).map (·.dependencyName) =
        ((activeEdges edges nodeId).map fun e => (e.dependency nodePath paths).1).map some := by
      rw [List.map_map]
      exact List.map_congr_left fun e he => (hall e he).dependencyName
    refine ⟨⟨hall, ?_⟩, rfl⟩
    rw [hnames, List.nodup_map_iff (Option.some_injective _)]
    exact hnodup
  · rintro ⟨h, rfl⟩
    exact ⟨h.resolvable, h.keys_nodup nodePath, by simp [SortedMap.keys], rfl⟩

/-- The entries that result are those of the enabled edges. -/
theorem toList_dependenciesOf_perm {nodeId : String} (h : DependenciesResolve edges paths nodeId) :
    (dependenciesOf edges paths nodeId nodePath).toList.Perm
      ((activeEdges edges nodeId).map (·.dependency nodePath paths)) := by
  refine SortedMap.toList_ofList_perm ?_
  rw [List.map_map]
  exact h.keys_nodup nodePath

end Dependencies

end InfraGraph
