import InfraGraph.Proofs.Graph.Preorder
import InfraGraph.Proofs.Import.Edges

/-!
# From references to edges

The graph of a scan has one edge for each dependency, in the order of the dependencies, between the
node that states it and the only node in the directory where it leads.  Two nodes in one directory
and dependencies that lead nowhere make the whole scan fail, and the first of them is reported;
nodes are looked at before dependencies.  These are all failures, so every other scan makes a graph.
-/

namespace InfraGraph

/-- The graph is that of the scan: its nodes are those that were found, with boxes, its edges are
the dependencies, and its faults are those of the nodes. -/
structure ImportedGraph.Links (imported : ImportedGraph) (scanned : ScanOutput) : Prop where
  nodes : List.Forall₂ (fun n laid => ∃ position size, laid = n.node.withFrame position size)
    scanned.nodes imported.graph.nodes
  /-- An edge leads to the node in the directory of its dependency, which is the only one there. -/
  edges : List.Forall₂ (fun (d : DependencyReference) edge => ∃ n ∈ scanned.nodes,
      n.path = Path.resolve d.sourcePath d.configPath ∧
        (∀ other ∈ scanned.nodes, other.path = n.path → other = n) ∧
          edge.Says d.sourceId n.node.id (some d.name))
    scanned.dependencies imported.graph.edges
  faults : DistinctIds (scanned.nodes.map (·.node)) → ∀ id fault,
    imported.faults.find? id = some fault ↔
      ∃ n ∈ scanned.nodes, n.node.id = id ∧ n.fault = some fault

section Linking

variable {nodes : List ScannedNode} {scanned : ScanOutput} {options : LayoutOptions Float}

theorem idAt?_eq_none_iff {path : String} :
    idAt? nodes path = none ↔ path ∉ nodes.map (·.path) := by
  simp [idAt?, List.find?_eq_none]

/-- Dependencies are refused for the first one that leads nowhere. -/
theorem exists_of_edgesOf_eq_error {taken : List String} {dependencies : List DependencyReference}
    {e : GraphError} (h : edgesOf nodes taken dependencies = .error e) :
    ∃ front d back, dependencies = front ++ d :: back ∧
      (∀ earlier ∈ front, earlier.target ∈ nodes.map (·.path)) ∧
      d.target ∉ nodes.map (·.path) ∧
      e = .unresolvedDependency d.sourcePath d.configPath d.name := by
  -- The ids that are taken decide nothing but the ids of edges.
  induction dependencies generalizing taken with
  | nil => cases h
  | cons d dependencies ih =>
      rw [edgesOf] at h
      cases htarget : idAt? nodes d.target with
      | none =>
          rw [htarget] at h
          exact ⟨[], d, dependencies, rfl, fun _ hmem => absurd hmem List.not_mem_nil,
            idAt?_eq_none_iff.1 htarget, (Except.error.inj h).symm⟩
      | some target =>
          rw [htarget] at h
          obtain ⟨front, d', back, rfl, hfront, hd'⟩ := ih (map_eq_error_iff.1 h)
          obtain ⟨n, hn, hpath, _⟩ := exists_of_idAt?_eq_some htarget
          exact ⟨d :: front, d', back, rfl,
            List.forall_mem_cons.2 ⟨List.mem_map.2 ⟨n, hn, hpath⟩, hfront⟩, hd'⟩

/-- Where ids are different the faults are those of the nodes, by their ids. -/
theorem find?_faultsOf (hids : DistinctIds (nodes.map (·.node))) {id : String}
    {fault : ConfigFault} :
    (faultsOf nodes).find? id = some fault ↔
      ∃ n ∈ nodes, n.node.id = id ∧ n.fault = some fault := by
  have hkeys : ((nodes.filterMap fun n => n.fault.map fun fault => (n.node.id, fault)).map
      (·.1)).Nodup := by
    rw [DistinctIds, List.Nodup, List.pairwise_map, List.pairwise_map] at hids
    rw [List.Nodup, List.pairwise_map, List.pairwise_filterMap]
    refine hids.imp fun hne entry hentry entry' hentry' => ?_
    obtain ⟨_, _, rfl⟩ := Option.map_eq_some_iff.1 hentry
    obtain ⟨_, _, rfl⟩ := Option.map_eq_some_iff.1 hentry'
    exact hne
  rw [faultsOf, SortedMap.find?_ofList_of_nodup hkeys, List.mem_filterMap]
  refine exists_congr fun n => and_congr_right fun _ => ?_
  rw [Option.map_eq_some_iff]
  constructor
  · rintro ⟨found, hfault, hentry⟩
    obtain ⟨rfl, rfl⟩ := Prod.mk.inj hentry
    exact ⟨rfl, hfault⟩
  · rintro ⟨rfl, hfault⟩
    exact ⟨fault, hfault, rfl⟩

/-- A scan fails for the first node in a directory that has one already. -/
theorem exists_reconstruct_eq_pathCollision (options : LayoutOptions Float)
    (h : ¬ (scanned.nodes.map (·.path)).Nodup) :
    ∃ front node back first, scanned.nodes = front ++ node :: back ∧
      (front.map (·.path)).Nodup ∧ first ∈ front ∧ first.path = node.path ∧
      reconstruct scanned options =
        .error (.pathCollision node.path first.node.id node.node.id) := by
  cases hrepeat : firstRepeat? [] (scanned.nodes.map fun n => (n.node.id, n.path)) with
  | none => exact absurd (firstRepeat?_path_eq_none_iff.1 hrepeat) h
  | some repeated =>
      obtain ⟨path, first, second⟩ := repeated
      obtain ⟨entries, _, hsplit, hfront, hfirst⟩ := exists_of_firstRepeat? hrepeat
      obtain ⟨front, rest, hnodes, rfl, hrest⟩ := List.map_eq_append_iff.1 hsplit
      obtain ⟨node, back, rfl, hnode, _⟩ := List.map_eq_cons_iff.1 hrest
      obtain ⟨rfl, rfl⟩ := Prod.mk.inj hnode
      rw [List.append_nil, List.mem_reverse, List.mem_map] at hfirst
      obtain ⟨earlier, hearlier, hentry⟩ := hfirst
      obtain ⟨rfl, hpath⟩ := Prod.mk.inj hentry
      refine ⟨front, node, back, earlier, hnodes, firstRepeat?_path_eq_none_iff.1 hfront, hearlier,
        hpath, ?_⟩
      rw [reconstruct, hrepeat]

/-- A scan with different directories fails for the first dependency that leads nowhere. -/
theorem exists_reconstruct_eq_unresolvedDependency (options : LayoutOptions Float)
    (hpaths : (scanned.nodes.map (·.path)).Nodup)
    (h : ¬ ∀ d ∈ scanned.dependencies, d.target ∈ scanned.nodes.map (·.path)) :
    ∃ front d back, scanned.dependencies = front ++ d :: back ∧
      (∀ earlier ∈ front, earlier.target ∈ scanned.nodes.map (·.path)) ∧
      d.target ∉ scanned.nodes.map (·.path) ∧
      reconstruct scanned options =
        .error (.unresolvedDependency d.sourcePath d.configPath d.name) := by
  rw [reconstruct_eq options hpaths]
  cases hedges : edgesOf scanned.nodes [] scanned.dependencies with
  | ok edges =>
      refine absurd (fun d hd => ?_) h
      obtain ⟨edge, _, _, htarget⟩ := exists_mem_of_forall₂ (forall₂_edgesOf hedges) hd
      obtain ⟨n, hn, hpath, _⟩ := exists_of_idAt?_eq_some htarget
      exact List.mem_map.2 ⟨n, hn, hpath⟩
  | error e =>
      obtain ⟨front, d, back, hsplit, hfront, hd, rfl⟩ := exists_of_edgesOf_eq_error hedges
      exact ⟨front, d, back, hsplit, hfront, hd, rfl⟩

/-- Every other scan makes a graph. -/
theorem exists_reconstruct_links (options : LayoutOptions Float)
    (hpaths : (scanned.nodes.map (·.path)).Nodup)
    (h : ∀ d ∈ scanned.dependencies, d.target ∈ scanned.nodes.map (·.path)) :
    ∃ imported, reconstruct scanned options = .ok imported ∧ imported.Links scanned := by
  rw [reconstruct_eq options hpaths]
  cases hedges : edgesOf scanned.nodes [] scanned.dependencies with
  | error e =>
      obtain ⟨_, d, _, hsplit, _, hd, _⟩ := exists_of_edgesOf_eq_error hedges
      exact absurd (h d (by simp [hsplit])) hd
  | ok edges =>
      have hlaid := forall₂_layoutNodes options (scanned.nodes.map (·.node))
      rw [List.forall₂_map_left_iff] at hlaid
      refine ⟨_, rfl, hlaid, (forall₂_edgesOf hedges).imp fun d edge hedge => ?_,
        fun hids id fault => find?_faultsOf hids⟩
      obtain ⟨n, hn, hpath, hid⟩ := exists_of_idAt?_eq_some hedge.2
      exact ⟨n, hn, hpath, fun other hother => List.inj_on_of_nodup_map hpaths hother hn,
        hid ▸ hedge.1⟩

/-- What a scan is turned into: the first collision of directories, otherwise the first dependency
that leads to no node, otherwise the graph with one edge for each dependency. -/
theorem reconstruct_mapsReferences (scanned : ScanOutput) (options : LayoutOptions Float) :
    (¬ (scanned.nodes.map (·.path)).Nodup →
      ∃ front node back first, scanned.nodes = front ++ node :: back ∧
        (front.map (·.path)).Nodup ∧ first ∈ front ∧ first.path = node.path ∧
        reconstruct scanned options =
          .error (.pathCollision node.path first.node.id node.node.id)) ∧
    ((scanned.nodes.map (·.path)).Nodup →
      (¬ ∀ d ∈ scanned.dependencies,
        Path.resolve d.sourcePath d.configPath ∈ scanned.nodes.map (·.path)) →
      ∃ front d back, scanned.dependencies = front ++ d :: back ∧
        (∀ earlier ∈ front, Path.resolve earlier.sourcePath earlier.configPath ∈
          scanned.nodes.map (·.path)) ∧
        Path.resolve d.sourcePath d.configPath ∉ scanned.nodes.map (·.path) ∧
        reconstruct scanned options =
          .error (.unresolvedDependency d.sourcePath d.configPath d.name)) ∧
    ((scanned.nodes.map (·.path)).Nodup →
      (∀ d ∈ scanned.dependencies,
        Path.resolve d.sourcePath d.configPath ∈ scanned.nodes.map (·.path)) →
      ∃ imported, reconstruct scanned options = .ok imported ∧ imported.Links scanned) :=
  ⟨exists_reconstruct_eq_pathCollision options, exists_reconstruct_eq_unresolvedDependency options,
    exists_reconstruct_links options⟩

end Linking

/-! ### References up and down a tree -/

namespace TwoReferences

open NamelessNodes (node)

def nodes : List ScannedNode := [
  ⟨node .folder "top" none "live", "live", none⟩,
  ⟨node .folder "web" (some "top") "web", "live/web", none⟩,
  ⟨node .folder "database" (some "top") "database", "live/database", some .malformed⟩
]

/-- The first two references lead to the same node. -/
def scan : ScanOutput where
  nodes := nodes
  dependencies := [
    ⟨"web", "live/web", "../database", "primary"⟩,
    ⟨"web", "live/web", "./..//database/", "replica"⟩,
    ⟨"database", "live/database", "..", "top"⟩
  ]

/-- Of the two references that are added, one leads above the top and one starts there. -/
def astray : ScanOutput where
  nodes := nodes
  dependencies := scan.dependencies ++
    [⟨"web", "live/web", "../../../live", "above"⟩, ⟨"web", "live/web", "/live", "absolute"⟩]

theorem nodup_paths : (nodes.map (·.path)).Nodup := by
  decide

theorem forall_mem_paths : ∀ d ∈ scan.dependencies,
    Path.resolve d.sourcePath d.configPath ∈ scan.nodes.map (·.path) := by
  decide

theorem not_forall_mem_paths : ¬ ∀ d ∈ astray.dependencies,
    Path.resolve d.sourcePath d.configPath ∈ astray.nodes.map (·.path) := by
  decide

/-- Without the references that lead astray there is a graph, with them one of them is reported. -/
theorem links_scan : (scan.nodes.map (·.path)).Nodup ∧
    (∀ d ∈ scan.dependencies,
      Path.resolve d.sourcePath d.configPath ∈ scan.nodes.map (·.path)) ∧
    (∃ imported, reconstruct scan .standard = .ok imported ∧ imported.Links scan) ∧
    ∃ front d back, astray.dependencies = front ++ d :: back ∧
      (∀ earlier ∈ front, Path.resolve earlier.sourcePath earlier.configPath ∈
        astray.nodes.map (·.path)) ∧
      Path.resolve d.sourcePath d.configPath ∉ astray.nodes.map (·.path) ∧
      reconstruct astray .standard =
        .error (.unresolvedDependency d.sourcePath d.configPath d.name) := by
  obtain ⟨_, _, hlinks⟩ := reconstruct_mapsReferences scan .standard
  obtain ⟨_, hfails, _⟩ := reconstruct_mapsReferences astray .standard
  exact ⟨nodup_paths, forall_mem_paths, hlinks nodup_paths forall_mem_paths,
    hfails nodup_paths not_forall_mem_paths⟩

end TwoReferences

end InfraGraph
