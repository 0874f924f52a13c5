import InfraGraph.Proofs.Graph.FirstFault
import InfraGraph.Proofs.Graph.Siblings
import InfraGraph.Proofs.Import.Attached
import InfraGraph.Proofs.Import.Directories
import InfraGraph.Proofs.Import.Linking

/-!
# Dependencies of imported nodes

Every dependency that a configuration file declares becomes an edge, and edges become dependencies
again once the graph is written.  Names of the same file differ and edges lead to nodes of the
graph, so nothing is lost on the way.  Only an empty name, which a file may declare, isn't a name
for an edge, and then the dependencies of the node don't resolve.
-/

namespace InfraGraph

/-! ### Edges with different names -/

/-- The enabled edges of a node have these names, which all differ, and lead to nodes with a
directory. -/
structure EdgesNamed (edges : List Edge) (paths : PathMap) (nodeId : String)
    (names : List String) : Prop where
  names_eq : (activeEdges edges nodeId).map (·.dependencyName) = names.map some
  nodup : names.Nodup
  placed : ∀ edge ∈ activeEdges edges nodeId, edge.target ∈ paths.keys

namespace EdgesNamed

variable {edges : List Edge} {paths : PathMap} {nodeId nodePath : String} {names : List String}

theorem nodup_dependencyName (h : EdgesNamed edges paths nodeId names) :
    ((activeEdges edges nodeId).map (·.dependencyName)).Nodup := by
  rw [h.names_eq, List.nodup_map_iff (Option.some_injective _)]
  exact h.nodup

theorem exists_name (h : EdgesNamed edges paths nodeId names) {edge : Edge}
    (hedge : edge ∈ activeEdges edges nodeId) :
    ∃ name ∈ names, edge.dependencyName = some name := by
  have hmem : edge.dependencyName ∈ names.map some :=
    h.names_eq ▸ List.mem_map.2 ⟨edge, hedge, rfl⟩
  obtain ⟨name, hname, heq⟩ := List.mem_map.1 hmem
  exact ⟨name, hname, heq.symm⟩

theorem resolve_iff (h : EdgesNamed edges paths nodeId names) :
    DependenciesResolve edges paths nodeId ↔ "" ∉ names := by
  constructor
  · intro hresolve hempty
    have hmem : some "" ∈ (activeEdges edges nodeId).map (·.dependencyName) :=
      h.names_eq ▸ List.mem_map.2 ⟨"", hempty, rfl⟩
    obtain ⟨edge, hedge, hname⟩ := List.mem_map.1 hmem
    obtain ⟨name, hsome, hne⟩ := (hresolve.resolvable edge hedge).named
    exact hne (Option.some.inj (hsome.symm.trans hname))
  · intro hempty
    refine ⟨fun edge hedge => ⟨?_, SortedMap.mem_keys_iff.1 (h.placed edge hedge)⟩,
      h.nodup_dependencyName⟩
    obtain ⟨name, hname, hsome⟩ := h.exists_name hedge
    exact ⟨name, hsome, fun hnil => hempty (hnil ▸ hname)⟩

/-- The dependencies have the names of the edges. -/
theorem keys_perm (h : EdgesNamed edges paths nodeId names) {dependencies : SortedMap String}
    (hresolved : resolveDependencies nodeId nodePath edges paths = .ok dependencies) :
    dependencies.keys.Perm names := by
  obtain ⟨hresolve, rfl⟩ := resolveDependencies_eq_ok_iff.1 hresolved
  have hsame : ((activeEdges edges nodeId).map fun e => (e.dependency nodePath paths).1) =
      names := by
    refine List.map_injective_iff.2 (Option.some_injective String) ?_
    rw [← h.names_eq, List.map_map]
    exact List.map_congr_left fun e he => (hresolve.resolvable e he).dependencyName.symm
  have hperm := (@toList_dependenciesOf_perm nodePath paths edges nodeId hresolve).map (·.1)
  rwa [List.map_map, Function.comp_def, hsame] at hperm

/-- Only an empty name keeps the edges from being resolved. -/
theorem exists_unnamed (h : EdgesNamed edges paths nodeId names) {e : GraphError}
    (hfailed : resolveDependencies nodeId nodePath edges paths = .error e) :
    ∃ edge ∈ activeEdges edges nodeId, edge.dependencyName = some "" ∧
      e = .unnamedDependency edge.id := by
  obtain ⟨front, edge, back, hsplit, hfault, _⟩ := resolveDependencies_eq_error_iff.1 hfailed
  have hedge : edge ∈ activeEdges edges nodeId := by simp [hsplit]
  cases hfault with
  | unnamed hname =>
      obtain ⟨name, _, hsome⟩ := h.exists_name hedge
      exact ⟨edge, hedge, hname.resolve_left (hsome ▸ Option.some_ne_none name), rfl⟩
  | unknownTarget _ _ htarget => exact absurd (h.placed edge hedge) htarget
  | repeatedName hname _ _ hother hrepeat =>
      have hdifferent := h.nodup_dependencyName
      rw [hsplit, List.map_append, List.map_cons, List.nodup_middle, List.nodup_cons,
        ← List.map_append] at hdifferent
      exact absurd (List.mem_map.2 ⟨_, List.mem_append_left _ hother, hrepeat.trans hname.symm⟩)
        hdifferent.1

end EdgesNamed

/-! ### What a folder declares -/

theorem Classification.mem_of_fileName? {names : List String} {name : String}
    (h : (ofFiles names).fileName? = some name) : name ∈ names := by
  unfold ofFiles at h
  split at h
  · rename_i type hfind
    obtain rfl := Option.some.inj h
    simpa using List.find?_some hfind
  · split at h
    · rename_i hcontains
      obtain rfl := Option.some.inj h
      simpa using hcontains
    · cases h

namespace FileTree

/-- The declarations of the configuration file of a folder, if there is one that can be used. -/
def config? (entries : List (String × FileTree)) : Option ParsedConfig :=
  (Classification.ofEntries entries).fileName?.bind fun name =>
    (Entries.find? name (plainFiles entries)).bind fun contents =>
      (Scanner.readConfig contents).toOption

/-- The names of the dependencies that the configuration file of a folder declares. -/
def dependencyNames (entries : List (String × FileTree)) : List String :=
  ((config? entries).map fun config => config.dependencies.map (·.1)).getD []

theorem exists_parse_of_config? {entries : List (String × FileTree)} {config : ParsedConfig}
    (h : config? entries = some config) : ∃ text, ParsedConfig.parse text = .ok config := by
  simp only [config?, Option.bind_eq_some_iff] at h
  obtain ⟨_, _, contents, _, hread⟩ := h
  unfold Scanner.readConfig at hread
  split at hread
  · cases hread
  · rename_i text _
    refine ⟨text, ?_⟩
    cases hparse : ParsedConfig.parse text with
    | error fault =>
        rw [hparse] at hread
        cases hread
    | ok config' =>
        rw [hparse] at hread
        rw [Option.some.inj hread]

/-- No name is declared twice. -/
theorem nodup_dependencyNames (entries : List (String × FileTree)) :
    (dependencyNames entries).Nodup := by
  unfold dependencyNames
  cases hconfig : config? entries with
  | none => exact List.nodup_nil
  | some config =>
      obtain ⟨text, hparse⟩ := exists_parse_of_config? hconfig
      exact ParsedConfig.nodup_names hparse

end FileTree

namespace Scanner

theorem config_of_settle {classification : Classification} {configPath : String}
    {contents : ByteArray} {settled : Settled}
    (h : settle classification configPath contents = .ok settled) :
    settled.config = (readConfig contents).toOption := by
  unfold settle at h
  cases hread : readConfig contents with
  | error fault =>
      rw [hread] at h
      simp only at h
      split at h <;> exact Except.ok.inj h ▸ rfl
  | ok config =>
      rw [hread] at h
      simp only at h
      split at h
      · exact Except.ok.inj h ▸ rfl
      · split at h
        · exact Except.ok.inj h ▸ rfl
        · cases h

theorem config_of_settleFolder {entries : List (String × FileTree)} {path : String}
    {settled : Settled}
    (h : settleFolder (.ofEntries entries) path (FileTree.plainFiles entries) = .ok settled) :
    settled.config = FileTree.config? entries := by
  unfold settleFolder at h
  unfold FileTree.config?
  cases hname : (Classification.ofEntries entries).fileName? with
  | none =>
      rw [hname] at h
      exact Except.ok.inj h ▸ rfl
  | some name =>
      rw [hname] at h
      cases hcontents : Entries.find? name (FileTree.plainFiles entries) with
      | none =>
          exact absurd (Classification.mem_of_fileName? hname)
            (Entries.find?_eq_none_iff.1 hcontents)
      | some contents =>
          simp only [hcontents, Option.getD_some] at h
          rw [config_of_settle h, Option.bind_some, hcontents, Option.bind_some]

/-! ### Edges of one node -/

namespace IsImport

variable {scanner : Scanner} {entries : List (String × FileTree)} {found : List Visit}
  {nodes : List Node} {edges : List Edge} {v : Visit} {node : Node} {paths : PathMap}

theorem config_eq (h : scanner.IsImport entries found nodes) (hv : v ∈ found) :
    v.settled.config = FileTree.config? v.entries := by
  obtain ⟨ids, hvisits⟩ := h.visits
  exact config_of_settleFolder (hvisits.settleFolder v hv)

theorem names_references (h : scanner.IsImport entries found nodes) (hv : v ∈ found) :
    (v.references scanner scanner.root).map (·.name) = FileTree.dependencyNames v.entries := by
  rw [Visit.references, FileTree.dependencyNames, h.config_eq hv]
  cases FileTree.config? v.entries <;> simp

/-- The references from a folder are those that its own configuration file states. -/
theorem filter_references (h : scanner.IsImport entries found nodes) (hv : v ∈ found) :
    ((found.flatMap (Visit.references scanner scanner.root)).filter fun d => d.sourceId = v.id) =
      v.references scanner scanner.root := by
  have hids : (found.map (·.id)).Nodup := h.ids_eq ▸ h.distinctIds
  obtain ⟨front, back, rfl⟩ := List.append_of_mem hv
  have hother : ∀ w ∈ front ++ back,
      (w.references scanner scanner.root).filter (fun d => d.sourceId = v.id) = [] := by
    rw [List.map_append, List.map_cons, List.nodup_middle, List.nodup_cons, ← List.map_append]
      at hids
    refine fun w hw => List.filter_eq_nil_iff.2 fun d hd => ?_
    rw [Visit.sourceId_of_mem_references hd, decide_eq_true_eq]
    exact fun hid => hids.1 (List.mem_map.2 ⟨w, hw, hid⟩)
  rw [List.forall_mem_append] at hother
  have hown : (v.references scanner scanner.root).filter (fun d => d.sourceId = v.id) =
      v.references scanner scanner.root :=
    List.filter_eq_self.2 fun d hd => decide_eq_true (Visit.sourceId_of_mem_references hd)
  rw [List.filter_flatMap, List.flatMap_append, List.flatMap_cons, hown,
    List.flatMap_eq_nil_iff.2 hother.1, List.flatMap_eq_nil_iff.2 hother.2, List.nil_append,
    List.append_nil]

/-- The edges of a node have the names of the dependencies that its folder declares. -/
theorem map_dependencyName (h : scanner.IsImport entries found nodes)
    (hedges : edgesOf (found.map (Visit.scannedNode scanner scanner.root)) []
      (found.flatMap (Visit.references scanner scanner.root)) = .ok edges)
    (hv : v ∈ found) (hmakes : v.Makes scanner node) :
    (activeEdges edges node.id).map (·.dependencyName) =
      (FileTree.dependencyNames v.entries).map some := by
  have hsaid : List.Forall₂ (fun (d : DependencyReference) edge =>
      edge.Says d.sourceId edge.target (some d.name))
      (found.flatMap (Visit.references scanner scanner.root)) edges :=
    (forall₂_edgesOf hedges).imp fun _ _ hsaid => hsaid.1
  have hown : List.Forall₂ (fun (d : DependencyReference) edge =>
      edge.Says d.sourceId edge.target (some d.name))
      (v.references scanner scanner.root) (activeEdges edges v.id) := by
    rw [← h.filter_references hv]
    refine List.rel_filter (fun d edge hsaid => ?_) hsaid
    simp [hsaid.source, hsaid.enabled]
  rw [hmakes.id_eq, ← h.names_references hv, List.map_map]
  exact (map_eq_map_of_forall₂ (hown.imp fun _ _ hsaid => hsaid.dependencyName.symm)).symm

/-- Edges are enabled, and lead to nodes that have a directory. -/
theorem enabled_and_target_mem_keys (h : scanner.IsImport entries found nodes)
    (hedges : edgesOf (found.map (Visit.scannedNode scanner scanner.root)) []
      (found.flatMap (Visit.references scanner scanner.root)) = .ok edges)
    (hpaths : resolvePaths nodes = .ok paths) {edge : Edge} (hedge : edge ∈ edges) :
    edge.enabled = true ∧ edge.target ∈ paths.keys := by
  obtain ⟨d, hd, hsaid, n, hn, _, hid⟩ := exists_of_mem_edgesOf hedges hedge
  obtain ⟨v, hv, rfl⟩ := List.mem_map.1 hn
  obtain ⟨node, hnode, hmakes⟩ := h.exists_node hv
  obtain ⟨above, hlineage, _⟩ := h.exists_lineage hv hnode hmakes
  have hkey := (mem_keys_resolvePaths h.distinctIds hpaths hnode).2
    ⟨h.type_ne_root hnode, _, above, hlineage, rfl⟩
  rw [hmakes.id_eq] at hkey
  exact ⟨hsaid.enabled, hid ▸ hkey⟩

/-- The edges of a node are named as its folder says. -/
theorem edgesNamed (h : scanner.IsImport entries found nodes)
    (hedges : edgesOf (found.map (Visit.scannedNode scanner scanner.root)) []
      (found.flatMap (Visit.references scanner scanner.root)) = .ok edges)
    (hpaths : resolvePaths nodes = .ok paths) (hv : v ∈ found) (hmakes : v.Makes scanner node) :
    EdgesNamed edges paths node.id (FileTree.dependencyNames v.entries) :=
  ⟨h.map_dependencyName hedges hv hmakes, FileTree.nodup_dependencyNames v.entries,
    fun _ hedge => (h.enabled_and_target_mem_keys hedges hpaths (mem_activeEdges.1 hedge).1).2⟩

end IsImport

end Scanner

/-- The dependencies of a node resolve to names, unless one of them is empty. -/
structure Node.ResolvesTo (node : Node) (edges : List Edge) (paths : PathMap)
    (names : List String) : Prop where
  resolves : "" ∉ names → ∀ nodePath, ∃ dependencies,
    resolveDependencies node.id nodePath edges paths = .ok dependencies ∧
      dependencies.keys.Perm names
  fails : "" ∈ names → ∀ nodePath, ∃ edge ∈ edges, edge.source = node.id ∧
    edge.dependencyName = some "" ∧
      resolveDependencies node.id nodePath edges paths = .error (.unnamedDependency edge.id)

theorem EdgesNamed.resolvesTo {edges : List Edge} {paths : PathMap} {node : Node}
    {names : List String} (h : EdgesNamed edges paths node.id names) :
    node.ResolvesTo edges paths names := by
  constructor
  · intro hempty nodePath
    obtain ⟨dependencies, hresolved⟩ : ∃ dependencies,
        resolveDependencies node.id nodePath edges paths = .ok dependencies :=
      exists_resolveDependencies_eq_ok_iff.2 (h.resolve_iff.2 hempty)
    exact ⟨dependencies, hresolved, h.keys_perm hresolved⟩
  · intro hempty nodePath
    cases hrun : resolveDependencies node.id nodePath edges paths with
    | ok dependencies =>
        exact absurd hempty (h.resolve_iff.1 (exists_resolveDependencies_eq_ok_iff.1 ⟨_, hrun⟩))
    | error e =>
        obtain ⟨edge, hedge, hname, rfl⟩ := h.exists_unnamed hrun
        obtain ⟨hmem, hsource, _⟩ := mem_activeEdges.1 hedge
        exact ⟨edge, hmem, hsource, hname, rfl⟩

/-! ### Importing -/

section Import

variable {σ : Type} [AttachmentStore σ] {fs : FileSystem} {root : String}
  {options : LayoutOptions Float} {draw : Nat → String} {store kept : σ}
  {imported : ImportedGraph}

/-- Where the nodes of an imported graph have directories, every edge leads to one, no two edges of
a node have the same name, and the dependencies of a node resolve to the names that its own
configuration file declares.  They don't resolve if one of these names is empty. -/
theorem importTree_resolvesDeclaredNames (hwell : fs.root.WellFormed)
    (hplain : fs.root.FoldersPlain)
    (h : importTree fs root options draw store = (.ok imported, kept)) {paths : PathMap}
    (hpaths : resolvePaths imported.graph.nodes = .ok paths) :
    ∃ entries, fs.list root = .ok entries ∧
      (∀ edge ∈ imported.graph.edges, edge.enabled = true ∧ edge.target ∈ paths.keys) ∧
      ∀ node ∈ imported.graph.nodes, ∃ es, node.IsFrom imported.graph.nodes entries es ∧
        ((activeEdges imported.graph.edges node.id).map (·.dependencyName)).Nodup ∧
        node.ResolvesTo imported.graph.edges paths (FileTree.dependencyNames es) := by
  obtain ⟨entries, found, hlist, himport, _, hedges⟩ :=
    exists_isImport_of_importTree (fun _ => wellFormed_and_plain_of_list hwell hplain) h
  refine ⟨entries, hlist, fun edge => himport.enabled_and_target_mem_keys hedges hpaths,
    fun node hnode => ?_⟩
  obtain ⟨v, hv, hmakes⟩ := himport.exists_visit hnode
  have hnamed := himport.edgesNamed hedges hpaths hv hmakes
  exact ⟨v.entries, himport.isFrom hv hnode hmakes, hnamed.nodup_dependencyName,
    hnamed.resolvesTo⟩

end Import

namespace TwoSettings

/-- Settings that depend on those beside them, under a name. -/
def tree (name : String) : FileSystem :=
  ⟨.folder [
    ("live", .folder [("account.hcl", .file
      ("dependency \"" ++ name ++ "\" \x7b config_path = \"../test\" \x7d\n").toUTF8)]),
    ("terragrunt.hcl", .file ByteArray.empty),
    ("test", .folder [("account.hcl", .file ByteArray.empty)])], []⟩

theorem wellFormed_tree (name : String) : (tree name).root.WellFormed := by
  simp only [tree, FileTree.WellFormed, FileTree.AllWellFormed, Entries.Ascending, and_true,
    List.pairwise_cons, List.forall_mem_cons, List.Pairwise.nil, List.not_mem_nil, false_imp_iff,
    implies_true]
  decide

/-- The directories of the nodes of an imported graph, if there are any. -/
def directories? : Except GraphError ImportedGraph × MemoryStore → Option PathMap
  | (.ok imported, _) => (resolvePaths imported.graph.nodes).toOption
  | (.error _, _) => none

theorem exists_of_directories? {result : Except GraphError ImportedGraph × MemoryStore}
    (h : (directories? result).isSome = true) : ∃ imported kept paths,
      result = (.ok imported, kept) ∧ resolvePaths imported.graph.nodes = .ok paths := by
  obtain ⟨_ | imported, kept⟩ := result
  · cases h
  · cases hpaths : resolvePaths imported.graph.nodes with
    | error e => simp [directories?, hpaths, Except.toOption] at h
    | ok paths => exact ⟨imported, kept, paths, rfl, hpaths⟩

/-- With a name the dependency resolves. -/
theorem resolvesDeclaredNames_tree : (tree "test").root.WellFormed ∧
    (tree "test").root.FoldersPlain ∧
    ∃ imported kept paths,
      importTree (tree "test") "/" .standard (NodeIds.ofSeed "") MemoryStore.empty =
        (.ok imported, kept) ∧
      resolvePaths imported.graph.nodes = .ok paths ∧
      ∃ entries, (tree "test").list "/" = .ok entries ∧
        (∀ edge ∈ imported.graph.edges, edge.enabled = true ∧ edge.target ∈ paths.keys) ∧
        ∀ node ∈ imported.graph.nodes, ∃ es, node.IsFrom imported.graph.nodes entries es ∧
          ((activeEdges imported.graph.edges node.id).map (·.dependencyName)).Nodup ∧
          node.ResolvesTo imported.graph.edges paths (FileTree.dependencyNames es) := by
  have hwell := wellFormed_tree "test"
  have hplain : (tree "test").root.FoldersPlain := (FileTree.foldersPlain_iff hwell).2 (by decide)
  have hsome : (directories? (importTree (tree "test") "/" .standard (NodeIds.ofSeed "")
      MemoryStore.empty)).isSome = true := by
    decide +kernel
  obtain ⟨imported, kept, paths, himport, hpaths⟩ := exists_of_directories? hsome
  exact ⟨hwell, hplain, imported, kept, paths, himport, hpaths,
    importTree_resolvesDeclaredNames hwell hplain himport hpaths⟩

/-- Whether the dependencies of some node don't resolve, although all nodes have directories. -/
def hasUnresolved : Except GraphError ImportedGraph × MemoryStore → Bool
  | (.ok imported, _) =>
    match resolvePaths imported.graph.nodes with
    | .ok paths => imported.graph.nodes.any fun node =>
        match paths.find? node.id with
        | some path => !(resolveDependencies node.id path imported.graph.edges paths).isOk
        | none => false
    | .error _ => false
  | (.error _, _) => false

/-- Without a name the tree is imported as well, but then the dependency doesn't resolve. -/
theorem exists_unresolved_tree : ∃ imported kept paths,
    importTree (tree "") "/" .standard (NodeIds.ofSeed "") MemoryStore.empty =
      (.ok imported, kept) ∧
    resolvePaths imported.graph.nodes = .ok paths ∧
    ∃ node ∈ imported.graph.nodes, ∃ path, paths.find? node.id = some path ∧
      ∀ dependencies, resolveDependencies node.id path imported.graph.edges paths ≠
        .ok dependencies := by
  have h : hasUnresolved (importTree (tree "") "/" .standard (NodeIds.ofSeed "")
      MemoryStore.empty) = true := by
    decide +kernel
  generalize importTree (tree "") "/" .standard (NodeIds.ofSeed "") MemoryStore.empty = result at h
  obtain ⟨_ | imported, kept⟩ := result
  · cases h
  · cases hpaths : resolvePaths imported.graph.nodes with
    | error e => simp [hasUnresolved, hpaths] at h
    | ok paths =>
        simp only [hasUnresolved, hpaths, List.any_eq_true] at h
        obtain ⟨node, hnode, h⟩ := h
        split at h
        · rename_i path hpath
          refine ⟨imported, kept, paths, rfl, hpaths, node, hnode, path, hpath, fun _ hok => ?_⟩
          rw [hok] at h
          cases h
        · cases h

end TwoSettings

end InfraGraph
