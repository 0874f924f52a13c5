import InfraGraph.Import.Reconstruct
import InfraGraph.Proofs.Graph.Layout
import InfraGraph.Proofs.Graph.Paths

/-!
# Graphs of scans without faults

If no two nodes of a scan have the same directory and every dependency leads to one of them, the
scan makes a graph: with the nodes of the scan, laid out, and one edge for each dependency.
-/

namespace InfraGraph

/-! ### Edges -/

/-- What an edge says, apart from its id and its handles. -/
structure Edge.Says (edge : Edge) (source target : String) (name : Option String) : Prop where
  source : edge.source = source
  target : edge.target = target
  dependencyName : edge.dependencyName = name
  enabled : edge.enabled = true

section Edges

variable {nodes : List ScannedNode}

/-- Dependencies that lead to nodes become edges to these. -/
theorem exists_edgesOf_eq_ok {dependencies : List DependencyReference}
    {target : DependencyReference → String}
    (h : ∀ d ∈ dependencies, idAt? nodes d.target = some (target d)) (taken : List String) :
    ∃ edges, edgesOf nodes taken dependencies = .ok edges ∧
      List.Forall₂ (fun (d : DependencyReference) edge =>
        edge.Says d.sourceId (target d) (some d.name)) dependencies edges := by
  -- The ids that are taken decide nothing but the ids of edges.
  induction dependencies generalizing taken with
  | nil => exact ⟨[], rfl, .nil⟩
  | cons d rest ih =>
      rw [List.forall_mem_cons] at h
      obtain ⟨edges, hedges, hrest⟩ := ih h.2 (edgeId taken d.sourceId (target d) d.name :: taken)
      let edge : Edge := ⟨edgeId taken d.sourceId (target d) d.name, d.sourceId, target d,
        some d.name, true, some "out", some "in"⟩
      refine ⟨edge :: edges, ?_, .cons ⟨rfl, rfl, rfl, rfl⟩ hrest⟩
      rw [edgesOf, h.1]
      simp only [hedges]
      rfl

/-- Where directories are different, a directory leads to its node. -/
theorem idAt?_eq_some (hpaths : (nodes.map (·.path)).Nodup) {node : ScannedNode}
    (hnode : node ∈ nodes) : idAt? nodes node.path = some node.node.id := by
  rw [idAt?, Option.map_eq_some_iff]
  cases hfind : nodes.find? fun n => n.path = node.path with
  | none =>
      have hne := List.find?_eq_none.1 hfind node hnode
      simp at hne
  | some found =>
      have hpath : found.path = node.path := by simpa using List.find?_some hfind
      rw [List.inj_on_of_nodup_map hpaths (List.mem_of_find?_eq_some hfind) hnode hpath]
      exact ⟨node, rfl, rfl⟩

theorem exists_of_idAt?_eq_some {path id : String} (h : idAt? nodes path = some id) :
    ∃ n ∈ nodes, n.path = path ∧ n.node.id = id := by
  obtain ⟨n, hfind, hid⟩ := Option.map_eq_some_iff.1 h
  exact ⟨n, List.mem_of_find?_eq_some hfind, by simpa using List.find?_some hfind, hid⟩

end Edges

/-! ### Graphs -/

theorem toList_faultsOf {nodes : List ScannedNode} (h : ∀ n ∈ nodes, n.fault = none) :
    (faultsOf nodes).toList = [] := by
  have hnil : (nodes.filterMap fun n => n.fault.map fun fault => (n.node.id, fault)) = [] := by
    rw [List.filterMap_eq_nil_iff]
    intro n hn
    rw [h n hn]
    rfl
  rw [faultsOf, hnil]
  rfl

theorem mem_keys_faultsOf {nodes : List ScannedNode} {id : String} :
    id ∈ (faultsOf nodes).keys ↔ ∃ n ∈ nodes, n.node.id = id ∧ n.fault ≠ none := by
  rw [faultsOf, SortedMap.mem_keys_ofList, List.mem_map]
  constructor
  · rintro ⟨entry, hentry, rfl⟩
    obtain ⟨n, hn, hfault⟩ := List.mem_filterMap.1 hentry
    obtain ⟨fault, hsome, rfl⟩ := Option.map_eq_some_iff.1 hfault
    exact ⟨n, hn, rfl, Option.ne_none_iff_exists'.2 ⟨fault, hsome⟩⟩
  · rintro ⟨n, hn, rfl, hfault⟩
    obtain ⟨fault, hsome⟩ := Option.ne_none_iff_exists'.1 hfault
    exact ⟨_, List.mem_filterMap.2 ⟨n, hn, Option.map_eq_some_iff.2 ⟨fault, hsome, rfl⟩⟩, rfl⟩

theorem firstRepeat?_path_eq_none_iff {nodes : List ScannedNode} :
    firstRepeat? [] (nodes.map fun n => (n.node.id, n.path)) = none ↔
      (nodes.map (·.path)).Nodup := by
  rw [firstRepeat?_eq_none_iff, List.map_map]
  exact and_iff_left (by simp)

/-- Where directories are different, nothing but the edges decides whether there is a graph. -/
theorem reconstruct_eq {scanned : ScanOutput} (options : LayoutOptions Float)
    (hpaths : (scanned.nodes.map (·.path)).Nodup) :
    reconstruct scanned options = (edgesOf scanned.nodes [] scanned.dependencies).map fun edges =>
      ⟨⟨layoutNodes options (scanned.nodes.map (·.node)), edges⟩, faultsOf scanned.nodes⟩ := by
  rw [reconstruct, firstRepeat?_path_eq_none_iff.2 hpaths]
  cases edgesOf scanned.nodes [] scanned.dependencies <;> rfl

/-- A scan makes a graph if directories are different and every dependency makes an edge. -/
theorem reconstruct_eq_ok_iff {scanned : ScanOutput} {options : LayoutOptions Float}
    {imported : ImportedGraph} :
    reconstruct scanned options = .ok imported ↔
      (scanned.nodes.map (·.path)).Nodup ∧
        ∃ edges, edgesOf scanned.nodes [] scanned.dependencies = .ok edges ∧
          ⟨⟨layoutNodes options (scanned.nodes.map (·.node)), edges⟩, faultsOf scanned.nodes⟩ =
            imported := by
  by_cases hpaths : (scanned.nodes.map (·.path)).Nodup
  · rw [reconstruct_eq options hpaths, map_eq_ok_iff, and_iff_right hpaths]
  · obtain ⟨repeated, hrepeat⟩ :=
      Option.ne_none_iff_exists'.1 (mt firstRepeat?_path_eq_none_iff.1 hpaths)
    rw [reconstruct, hrepeat]
    exact iff_of_false nofun fun h => hpaths h.1

/-- A scan with different directories, whose dependencies lead to nodes, makes a graph. -/
theorem exists_reconstruct_eq_ok {scanned : ScanOutput} (options : LayoutOptions Float)
    (hpaths : (scanned.nodes.map (·.path)).Nodup) (hfaults : ∀ n ∈ scanned.nodes, n.fault = none)
    {target : DependencyReference → String}
    (h : ∀ d ∈ scanned.dependencies, idAt? scanned.nodes d.target = some (target d)) :
    ∃ imported, reconstruct scanned options = .ok imported ∧ imported.faults.toList = [] ∧
      List.Forall₂ (fun n laid => ∃ position size, laid = n.node.withFrame position size)
        scanned.nodes imported.graph.nodes ∧
      List.Forall₂ (fun (d : DependencyReference) edge =>
        edge.Says d.sourceId (target d) (some d.name)) scanned.dependencies
        imported.graph.edges := by
  obtain ⟨edges, hedges, htells⟩ := exists_edgesOf_eq_ok h []
  have hlaid := forall₂_layoutNodes options (scanned.nodes.map (·.node))
  rw [List.forall₂_map_left_iff] at hlaid
  exact ⟨_, reconstruct_eq_ok_iff.2 ⟨hpaths, edges, hedges, rfl⟩,
    toList_faultsOf hfaults, hlaid, htells⟩

end InfraGraph
