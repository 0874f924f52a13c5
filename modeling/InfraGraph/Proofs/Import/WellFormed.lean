import InfraGraph.Attachment.Memory
import InfraGraph.Import.Tree
import InfraGraph.Proofs.Config.Declarations
import InfraGraph.Proofs.Graph.Forest
import InfraGraph.Proofs.Graph.Lineage
import InfraGraph.Proofs.Import.Edges
import InfraGraph.Proofs.Import.Visit

/-!
# Imported graphs are well-formed

Whatever a tree looks like, ids tell the nodes and edges of its graph apart, parents make a forest
and come before what lies below them, edges join nodes of the graph, and dependencies of a node have
different names.
-/

namespace InfraGraph

/-- What can be relied on in a graph that was imported. -/
structure ImportedGraph.IsWellFormed (imported : ImportedGraph) : Prop where
  distinctIds : DistinctIds imported.graph.nodes
  /-- Every node comes right before the nodes below it. -/
  forest : IsForest none 0 imported.graph.nodes
  /-- A node lies at the top, or one level below a parent that comes earlier. -/
  parent_before : ∀ front node back, imported.graph.nodes = front ++ node :: back →
    (node.parentId = none ∧ node.depth = 0) ∨
      ∃ parent ∈ front, node.parentId = some parent.id ∧ node.depth = parent.depth + 1
  edges : ∀ edge ∈ imported.graph.edges, edge.enabled = true ∧
    (∃ node ∈ imported.graph.nodes, node.id = edge.source) ∧
    ∃ node ∈ imported.graph.nodes, node.id = edge.target
  names : imported.graph.edges.Pairwise fun edge edge' =>
    edge.source = edge'.source → edge.dependencyName ≠ edge'.dependencyName
  edgeIds : (imported.graph.edges.map (·.id)).Nodup
  faults : ∀ id ∈ imported.faults.keys, ∃ node ∈ imported.graph.nodes, node.id = id

/-! ### What a scan passes on -/

section Walk

variable {scanner : Scanner} {top : String} {depth : Nat} {parentId : Option String}
  {ids ids' : NodeIds} {items : List (List String × FileTree)} {found : List Visit}

/-- The nodes of a walk come in the order of their forest. -/
theorem Scanner.Visits.isForest (h : scanner.Visits top depth parentId ids items found ids') :
    IsForest parentId depth (found.map (Visit.node scanner top)) := by
  induction h with
  | done => exact .nil
  | pass _ _ ih => exact ih
  | prune _ _ _ _ _ ihrest => exact ihrest
  | keep _ _ _ _ _ _ ihbelow ihrest =>
      rw [List.map_cons, List.map_append]
      exact .cons rfl rfl ihbelow ihrest

/-- The declarations of a folder are those of a configuration file in it. -/
theorem Scanner.exists_parse_of_settleFolder {classification : Classification} {path : String}
    {files : List (String × ByteArray)} {settled : Settled} {config : ParsedConfig}
    (h : settleFolder classification path files = .ok settled)
    (hconfig : settled.config = some config) :
    ∃ text, ParsedConfig.parse text = .ok config := by
  have hread : ∀ contents, readConfig contents = .ok config →
      ∃ text, ParsedConfig.parse text = .ok config := by
    intro contents hcontents
    unfold readConfig at hcontents
    split at hcontents
    · cases hcontents
    · exact ⟨_, hcontents⟩
  unfold settleFolder at h
  split at h
  · obtain rfl := Except.ok.inj h
    cases hconfig
  · unfold settle at h
    split at h
    · split at h <;> (obtain rfl := Except.ok.inj h; cases hconfig)
    · rename_i config' hcontents
      split at h
      · obtain rfl := Except.ok.inj h
        exact hread _ (Option.some.inj hconfig ▸ hcontents)
      · simp only at h
        split at h
        · obtain rfl := Except.ok.inj h
          exact hread _ (Option.some.inj hconfig ▸ hcontents)
        · cases h

theorem Visit.sourceId_of_mem_references {v : Visit} {d : DependencyReference}
    (h : d ∈ v.references scanner top) : d.sourceId = v.id := by
  obtain ⟨_, _, rfl⟩ := List.mem_map.1 h
  rfl

/-- The dependencies that a folder states have different names. -/
theorem Visit.namesDiffer_references {v : Visit} {path : String}
    (h : Scanner.settleFolder (.ofEntries v.entries) path (FileTree.plainFiles v.entries) =
      .ok v.settled) : NamesDiffer (v.references scanner top) := by
  have hnodup : (((v.settled.config.map (·.dependencies)).getD []).map (·.1)).Nodup := by
    cases hconfig : v.settled.config with
    | none => exact List.nodup_nil
    | some config =>
        obtain ⟨text, hparse⟩ := Scanner.exists_parse_of_settleFolder h hconfig
        exact ParsedConfig.nodup_names hparse
  refine List.pairwise_map.2 ((List.pairwise_map.1 hnodup).imp fun {d d'} hname => ?_)
  exact fun _ => hname

/-- Dependencies of different folders have different sources. -/
theorem namesDiffer_flatMap_references (hids : (found.map (·.id)).Nodup)
    (hsettled : ∀ v ∈ found, Scanner.settleFolder (.ofEntries v.entries)
      (Path.walk top v.parts) (FileTree.plainFiles v.entries) = .ok v.settled) :
    NamesDiffer (found.flatMap (Visit.references scanner top)) := by
  rw [NamesDiffer, List.pairwise_flatMap]
  refine ⟨fun v hv => v.namesDiffer_references (hsettled v hv), ?_⟩
  refine (List.pairwise_map.1 hids).imp fun hne d hd d' hd' hsource => ?_
  rw [Visit.sourceId_of_mem_references hd, Visit.sourceId_of_mem_references hd'] at hsource
  exact absurd hsource hne

end Walk

/-! ### What becomes of it -/

/-- Laying out changes nothing in the order of a forest. -/
theorem IsForest.layoutNodes {parentId : Option String} {depth : Nat} {nodes : List Node}
    (h : IsForest parentId depth nodes) (options : LayoutOptions Float) :
    IsForest parentId depth (layoutNodes options nodes) := by
  refine h.of_forall₂ ((forall₂_layoutNodes options nodes).imp fun node laid hnode => ?_)
  obtain ⟨position, size, rfl⟩ := hnode
  exact ⟨rfl, rfl, rfl⟩

/-- A graph is well-formed if it comes from nodes in the order of a forest, with different ids
without underscores, and from dependencies of these nodes with different names. -/
theorem isWellFormed_of_reconstruct {scanned : ScanOutput} {options : LayoutOptions Float}
    {imported : ImportedGraph} (h : reconstruct scanned options = .ok imported)
    (hids : (scanned.nodes.map fun n => n.node.id).Nodup)
    (hplain : ∀ n ∈ scanned.nodes, '_' ∉ n.node.id.toList)
    (hforest : IsForest none 0 (scanned.nodes.map (·.node)))
    (hsources : ∀ d ∈ scanned.dependencies, ∃ n ∈ scanned.nodes, n.node.id = d.sourceId)
    (hnames : NamesDiffer scanned.dependencies) : imported.IsWellFormed := by
  obtain ⟨_, edges, hedges, rfl⟩ := reconstruct_eq_ok_iff.1 h
  have hforest' := hforest.layoutNodes options
  have hexists : ∀ n ∈ scanned.nodes,
      ∃ node ∈ layoutNodes options (scanned.nodes.map (·.node)), node.id = n.node.id := by
    intro n hn
    rw [← List.mem_map, map_id_layoutNodes]
    exact List.mem_map_of_mem (List.mem_map_of_mem hn)
  refine ⟨?_, hforest', fun front node back => hforest'.parent_before, fun edge hedge => ?_,
    pairwise_dependencyName_edgesOf hedges hnames, ?_, fun id hid => ?_⟩
  · rwa [DistinctIds, map_id_layoutNodes, List.map_map]
  · obtain ⟨d, hd, hsaid, n', hn', _, htarget⟩ := exists_of_mem_edgesOf hedges hedge
    obtain ⟨n, hn, hsource⟩ := hsources d hd
    refine ⟨hsaid.enabled, ?_, htarget ▸ hexists n' hn'⟩
    rw [hsaid.source, ← hsource]
    exact hexists n hn
  · refine (nodup_ids_edgesOf hedges hplain (fun d hd => ?_) hnames (by simp)).1
    obtain ⟨n, hn, hsource⟩ := hsources d hd
    rw [← hsource]
    exact hplain n hn
  · obtain ⟨n, hn, rfl, _⟩ := mem_keys_faultsOf.1 hid
    exact hexists n hn

/-! ### Importing -/

section Import

variable {fs : FileSystem} {root : String} {draw : Nat → String}

/-- A tree that is scanned without faults is walked over once. -/
theorem exists_visits_of_scanTree {output : ScanOutput} {uploads : List Upload}
    (h : scanTree fs root draw = .ok (output, uploads)) :
    ∃ entries found ids', fs.list root = .ok entries ∧
      (Scanner.mk root draw).Visits root 0 none .empty (FileTree.itemsIn [] entries) found ids' ∧
      Scanned.join (found.map (Visit.yields (Scanner.mk root draw) root)) =
        ⟨output, uploads, []⟩ := by
  unfold scanTree at h
  split at h
  · split at h
    · cases h
    · rename_i entries hlist
      obtain ⟨hfaults, houtput, huploads⟩ := Scanned.result_eq_ok_iff.1 h
      obtain ⟨found, hvisits, hyields⟩ := Scanner.exists_visits_scanSubfolders hfaults
      refine ⟨entries, found, _, hlist, hvisits, ?_⟩
      rw [← hyields, ← houtput, ← huploads, ← hfaults]
  · cases h

theorem exists_scanTree_of_importTree {σ : Type} [AttachmentStore σ]
    {options : LayoutOptions Float} {store store' : σ} {imported : ImportedGraph}
    (h : importTree fs root options draw store = (.ok imported, store')) :
    ∃ output uploads, scanTree fs root draw = .ok (output, uploads) ∧
      StoreM.runIn store (uploadAll uploads) = (.ok (), store') ∧
      reconstruct output options = .ok imported := by
  unfold importTree at h
  split at h
  · cases h
  · rename_i output uploads hscan
    split at h
    · cases h
    · rename_i store'' hupload
      obtain ⟨hreconstruct, rfl⟩ := Prod.mk.inj h
      exact ⟨output, uploads, hscan, hupload, hreconstruct⟩

end Import

/-- Every graph that is imported is well-formed, if ids that are drawn are hexadecimal digits in
groups. -/
theorem importTree_isWellFormed {σ : Type} [AttachmentStore σ] {fs : FileSystem} {root : String}
    {options : LayoutOptions Float} {draw : Nat → String} {store store' : σ}
    {imported : ImportedGraph} (hdraw : ∀ n, NodeIds.IsHexText (draw n))
    (h : importTree fs root options draw store = (.ok imported, store')) :
    imported.IsWellFormed := by
  obtain ⟨output, uploads, hscan, _, hreconstruct⟩ := exists_scanTree_of_importTree h
  obtain ⟨entries, found, ids', _, hvisits, hyields⟩ := exists_visits_of_scanTree hscan
  have hnodes := Visit.nodes_join_yields (Scanner.mk root draw) root found
  have hdependencies := Visit.dependencies_join_yields (Scanner.mk root draw) root found
  rw [hyields] at hnodes hdependencies
  simp only at hnodes hdependencies
  have hids := hvisits.nodup_ids List.nodup_nil
  refine isWellFormed_of_reconstruct hreconstruct ?_ ?_ ?_ ?_ ?_
  · rw [hnodes, List.map_map]
    exact hids
  · rw [hnodes, List.forall_mem_map]
    exact fun v hv => (hvisits.isHexText hdraw v hv).underscore_not_mem
  · rw [hnodes, List.map_map]
    exact hvisits.isForest
  · rw [hdependencies, hnodes]
    intro d hd
    obtain ⟨v, hv, hd⟩ := List.mem_flatMap.1 hd
    exact ⟨_, List.mem_map.2 ⟨v, hv, rfl⟩, (Visit.sourceId_of_mem_references hd).symm⟩
  · rw [hdependencies]
    exact namesDiffer_flatMap_references hids hvisits.settleFolder

namespace TwoAccounts

/-- Two settings files beside each other, of which one names the directory of the other one. -/
def tree : FileSystem :=
  ⟨.folder [
    ("live", .folder [("account.hcl", .file
      "dependency \"test\" \x7b config_path = \"../test\" \x7d\n".toUTF8)]),
    ("terragrunt.hcl", .file ByteArray.empty),
    ("test", .folder [("account.hcl", .file ByteArray.empty)])], []⟩

/-- The two files are imported as a graph, which is well-formed. -/
theorem isWellFormed_tree :
    (∀ n, NodeIds.IsHexText (NodeIds.ofSeed "" n)) ∧
      ∃ imported store, importTree tree "/" .standard (NodeIds.ofSeed "") MemoryStore.empty =
        (.ok imported, store) ∧ imported.IsWellFormed := by
  have hok : (importTree tree "/" .standard (NodeIds.ofSeed "") MemoryStore.empty).1.isOk =
      true := by
    decide +kernel
  have hdraw := NodeIds.isHexText_ofSeed ""
  obtain ⟨imported, store, himport⟩ := exists_ok_of_isOk_fst hok
  exact ⟨hdraw, imported, store, himport, importTree_isWellFormed hdraw himport⟩

end TwoAccounts

end InfraGraph
