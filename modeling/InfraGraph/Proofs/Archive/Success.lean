import InfraGraph.Proofs.Archive.Names
import InfraGraph.Proofs.Attachment.Memory

/-!
# When a graph can be generated

Where ids are distinct, generation succeeds exactly when six conditions hold, none of which mentions
the order in which things are done.  Of several conditions that don't hold, the first of labels,
directories and levels of settings determines the failure.
-/

namespace InfraGraph

/-- Every directory has a label that can be its name. -/
def LabelsUsable (nodes : List Node) : Prop :=
  ∀ node path, IsPlaced nodes node path →
    sanitizeLabel node.label ≠ "" ∧ sanitizeLabel node.label ≠ "." ∧
      sanitizeLabel node.label ≠ ".."

/-- No two nodes have the same directory. -/
def DirectoriesDistinct (nodes : List Node) : Prop :=
  ∀ node node' path, IsPlaced nodes node path → IsPlaced nodes node' path → node = node'

/-- There is a node of every level of settings. -/
def LevelsComplete (nodes : List Node) : Prop :=
  ∀ type ∈ NodeType.settingsTypes, ∃ node ∈ nodes, node.type = type

instance (nodes : List Node) : Decidable (LevelsComplete nodes) :=
  inferInstanceAs (Decidable (∀ type ∈ NodeType.settingsTypes, ∃ node ∈ nodes, node.type = type))

/-- What generation asks of a graph, and of the files that a store has. -/
structure CanGenerate (hasFile : String → Prop) (g : Graph) : Prop where
  labels : LabelsUsable g.nodes
  directories : DirectoriesDistinct g.nodes
  levels : LevelsComplete g.nodes
  /-- Enabled edges have names, which are different, and lead to nodes with directories. -/
  dependencies : ∀ node path, IsPlaced g.nodes node path → node.type.hasOutput = true →
    (∀ e ∈ activeEdges g.edges node.id,
      (∃ name, e.dependencyName = some name ∧ name ≠ "") ∧
        ∃ target path', IsPlaced g.nodes target path' ∧ target.id = e.target) ∧
      ((activeEdges g.edges node.id).map (·.dependencyName)).Nodup
  attachments : ∀ node path, IsPlaced g.nodes node path → ∀ file ∈ node.files,
    Attachment.isValidName file.fileName = true ∧ hasFile file.fileId
  /-- No file has the name of another one, or of a directory beside it. -/
  fileNames : ∀ node path, IsPlaced g.nodes node path → node.fileNames.Nodup ∧
    ∀ name ∈ node.fileNames, ∀ child path', IsPlaced g.nodes child path' →
      path' ≠ path ++ "/" ++ name

section Success

variable {nodes : List Node}

theorem labelsUsable_iff :
    LabelsUsable nodes ↔ ∀ node parts, LiesAt nodes node parts → node.HasUsableLabel := by
  constructor
  · intro h node parts hlies
    by_cases hroot : node.type = .root
    · exact .inl hroot
    · exact .inr (isUsableName_iff.2 (h node _ ⟨hroot, parts, hlies, rfl⟩))
  · rintro h node _ ⟨hroot, parts, hlies, rfl⟩
    exact isUsableName_iff.1 ((h node parts hlies).resolve_left hroot)

theorem exists_resolvePaths_iff_labelsUsable (hids : DistinctIds nodes) :
    (∃ paths, resolvePaths nodes = .ok paths) ↔ LabelsUsable nodes := by
  rw [exists_resolvePaths_eq_ok_iff hids, labelsUsable_iff]

theorem values_nodup_iff (hids : DistinctIds nodes) {paths : PathMap}
    (h : resolvePaths nodes = .ok paths) :
    paths.values.Nodup ↔ DirectoriesDistinct nodes := by
  rw [SortedMap.values_nodup_iff]
  constructor
  · rintro hkeys node node' path ⟨hroot, parts, hlies, hpath⟩ ⟨hroot', parts', hlies', hpath'⟩
    have hfind := (find?_resolvePaths hids h).2 ⟨node, parts, hroot, rfl, hlies, hpath⟩
    have hfind' := (find?_resolvePaths hids h).2 ⟨node', parts', hroot', rfl, hlies', hpath'⟩
    exact hids.eq_of_id_eq hlies.mem hlies'.mem (hkeys _ _ path hfind hfind')
  · intro hdistinct first second path hfirst hsecond
    obtain ⟨node, parts, hroot, rfl, hlies, hpath⟩ := (find?_resolvePaths hids h).1 hfirst
    obtain ⟨node', parts', hroot', rfl, hlies', hpath'⟩ := (find?_resolvePaths hids h).1 hsecond
    rw [hdistinct node node' path ⟨hroot, parts, hlies, hpath⟩ ⟨hroot', parts', hlies', hpath'⟩]

namespace Archive

theorem missingLevel?_eq_none_iff : missingLevel? nodes = none ↔ LevelsComplete nodes := by
  simp [missingLevel?, LevelsComplete, List.find?_eq_none]

variable {σ : Type} [AttachmentStore σ] {store : σ} {moduleBase : String} {g : Graph}

/-- Where ids are distinct, nothing but the six conditions decides whether a graph can be
generated. -/
theorem exists_ofGraph_eq_ok_iff (hids : DistinctIds g.nodes) :
    (∃ archive, ofGraph store moduleBase g = .ok archive) ↔
      CanGenerate (fun id => ∃ contents, storedContents? store id = some contents) g := by
  constructor
  · rintro ⟨archive, harchive⟩
    obtain ⟨paths, h, rfl⟩ := ofGraph_eq_ok_iff.1 harchive
    have hplaced : ∀ node path, IsPlaced g.nodes node path →
        (node, path) ∈ placedNodes g paths.toList := fun node path =>
      (mem_placedNodes_iff_isPlaced hids h.resolved).2
    refine ⟨(exists_resolvePaths_iff_labelsUsable hids).1 ⟨paths, h.resolved⟩,
      (values_nodup_iff hids h.resolved).1 h.distinct, missingLevel?_eq_none_iff.1 h.complete,
      fun node path hnode houtput => ?_, fun node path hnode file hfile => ?_,
      fun node path hnode => ⟨?_, ?_⟩⟩
    · obtain ⟨hresolvable, hnames⟩ := h.dependencies _ (hplaced node path hnode) houtput
      refine ⟨fun e he => ?_, hnames⟩
      obtain ⟨hnamed, target, htarget⟩ := hresolvable e he
      obtain ⟨node', parts, hroot, hid, hlies, hpath⟩ :=
        (find?_resolvePaths hids h.resolved).1 htarget
      exact ⟨hnamed, node', target, ⟨hroot, parts, hlies, hpath⟩, hid⟩
    · have hmem := hplaced node path hnode
      exact ⟨h.valid _ hmem file hfile, h.stored _ hmem file hfile⟩
    · exact (nodup_plannedFiles_iff h.distinct h.valid).1 h.nodup _ (hplaced node path hnode)
    · intro name hname child path' hchild hpath'
      refine forall_path_not_mem_values_iff.1 h.free _ (hplaced node path hnode) name hname ?_
      rw [← hpath']
      exact mem_values_of_mem_placedNodes (hplaced child path' hchild)
  · intro h
    obtain ⟨paths, hresolved⟩ := (exists_resolvePaths_iff_labelsUsable hids).2 h.labels
    have hdistinct := (values_nodup_iff hids hresolved).2 h.directories
    have hplaced : ∀ placed ∈ placedNodes g paths.toList, IsPlaced g.nodes placed.1 placed.2 :=
      fun placed => (mem_placedNodes_iff_isPlaced hids hresolved).1
    have hvalid : ∀ placed ∈ placedNodes g paths.toList, ∀ file ∈ placed.1.files,
        Attachment.isValidName file.fileName = true := fun placed hmem file hfile =>
      (h.attachments _ _ (hplaced placed hmem) file hfile).1
    refine ⟨_, ofGraph_eq_ok_iff.2 ⟨paths, ⟨hresolved, hdistinct,
      missingLevel?_eq_none_iff.2 h.levels, fun placed hmem houtput => ?_, hvalid,
      fun placed hmem file hfile => (h.attachments _ _ (hplaced placed hmem) file hfile).2,
      forall_path_not_mem_values_iff.2 fun placed hmem name hname hvalue => ?_,
      (nodup_plannedFiles_iff hdistinct hvalid).2 fun placed hmem =>
        (h.fileNames _ _ (hplaced placed hmem)).1⟩, rfl⟩⟩
    · obtain ⟨hedges, hnames⟩ := h.dependencies _ _ (hplaced placed hmem) houtput
      refine ⟨fun e he => ?_, hnames⟩
      obtain ⟨hnamed, target, path, ⟨hroot, parts, hlies, hpath⟩, hid⟩ := hedges e he
      exact ⟨hnamed, path,
        (find?_resolvePaths hids hresolved).2 ⟨target, parts, hroot, hid, hlies, hpath⟩⟩
    · obtain ⟨child, hchild⟩ := (mem_values_iff_isPlaced hids hresolved).1 hvalue
      exact (h.fileNames _ _ (hplaced placed hmem)).2 name hname child _ hchild rfl

/-- A store in memory gives contents back for exactly the ids of its records, in every state that it
can get into. -/
theorem hasFile_eq_of_isReachable {store : MemoryStore} (h : store.IsReachable) :
    (fun id => ∃ contents, storedContents? store id = some contents) =
      fun id => ∃ record, store.records.find? id = some record := by
  funext id
  rw [← h.isSound.exists_get_iff]
  simp only [storedContents?_eq_some_iff]
  rfl

/-- A label that makes no name is reported before anything else. -/
theorem ofGraph_of_not_labelsUsable (hids : DistinctIds g.nodes) (h : ¬ LabelsUsable g.nodes) :
    ∃ node path, IsPlaced g.nodes node path ∧
      (sanitizeLabel node.label = "" ∨ sanitizeLabel node.label = "." ∨
        sanitizeLabel node.label = "..") ∧
      ofGraph store moduleBase g = .error (.missingLabel node.id) := by
  cases hresolve : resolvePaths g.nodes with
  | ok paths => exact absurd ((exists_resolvePaths_iff_labelsUsable hids).1 ⟨paths, hresolve⟩) h
  | error e =>
      obtain ⟨node, parts, hlies, hlabel, rfl⟩ := exists_missingLabel_of_resolvePaths hids hresolve
      rw [Node.HasUsableLabel, isUsableName_iff, not_or] at hlabel
      refine ⟨node, _, ⟨hlabel.1, parts, hlies, rfl⟩, by tauto, ?_⟩
      simp only [ofGraph, hresolve]
      rfl

/-- If labels make names, two nodes with one directory are reported before anything else. -/
theorem ofGraph_of_not_directoriesDistinct (hids : DistinctIds g.nodes)
    (hlabels : LabelsUsable g.nodes) (h : ¬ DirectoriesDistinct g.nodes) :
    ∃ node node' path, IsPlaced g.nodes node path ∧ IsPlaced g.nodes node' path ∧ node ≠ node' ∧
      ofGraph store moduleBase g = .error (.pathCollision path node.id node'.id) := by
  obtain ⟨paths, hresolve⟩ := (exists_resolvePaths_iff_labelsUsable hids).2 hlabels
  have hvalues := mt (values_nodup_iff hids hresolve).1 h
  obtain ⟨path, first, second, hunique, hne, hfirst, hsecond⟩ :=
    exists_pathCollision_of_ensureUnique hvalues
  obtain ⟨node, parts, hroot, rfl, hlies, hpath⟩ := (find?_resolvePaths hids hresolve).1 hfirst
  obtain ⟨node', parts', hroot', rfl, hlies', hpath'⟩ :=
    (find?_resolvePaths hids hresolve).1 hsecond
  refine ⟨node, node', path, ⟨hroot, parts, hlies, hpath⟩, ⟨hroot', parts', hlies', hpath'⟩,
    fun heq => hne (congrArg Node.id heq), ?_⟩
  simp only [ofGraph, hresolve, bind, Except.bind, hunique]

/-- If directories are fine, a missing level of settings is reported before anything else. -/
theorem ofGraph_of_not_levelsComplete (hids : DistinctIds g.nodes) (hlabels : LabelsUsable g.nodes)
    (hdirectories : DirectoriesDistinct g.nodes) (h : ¬ LevelsComplete g.nodes) :
    ∃ type ∈ NodeType.settingsTypes, (∀ node ∈ g.nodes, node.type ≠ type) ∧
      ofGraph store moduleBase g = .error (.incompleteGraph type) := by
  obtain ⟨paths, hresolve⟩ := (exists_resolvePaths_iff_labelsUsable hids).2 hlabels
  have hunique := ensureUnique_eq_ok_iff.2 ((values_nodup_iff hids hresolve).2 hdirectories)
  cases hlevel : missingLevel? g.nodes with
  | none => exact absurd (missingLevel?_eq_none_iff.1 hlevel) h
  | some type =>
      refine ⟨type, List.mem_of_find?_eq_some hlevel, ?_, ?_⟩
      · simpa using List.find?_some hlevel
      · simp only [ofGraph, hresolve, bind, Except.bind, hunique, hlevel]

end Archive

/-! ### Labels that are all different -/

theorem IsPlaced.exists_parts (hlabels : LabelsUsable nodes) {node : Node} {path : String}
    (h : IsPlaced nodes node path) :
    ∃ front, (∀ part ∈ front ++ [sanitizeLabel node.label], Path.IsPlain part) ∧
      path = Path.unsplit (front ++ [sanitizeLabel node.label]) := by
  obtain ⟨hroot, parts, ⟨above, hlineage, rfl⟩, rfl⟩ := h
  have husable : ∀ n ∈ node :: above, n.HasUsableLabel := by
    intro n hn
    obtain ⟨front, rest, hsplit⟩ := List.append_of_mem hn
    exact labelsUsable_iff.1 hlabels n _ ⟨rest, hlineage.of_suffix ⟨front, hsplit.symm⟩, rfl⟩
  have hplain := isPlain_directoryParts husable
  rw [directoryParts_of_ne_root hroot] at hplain ⊢
  exact ⟨_, hplain, rfl⟩

/-- Directories and files keep out of each other's way if labels are different from each other and
from the names of all files. -/
theorem canGenerate_of_labels {hasFile : String → Prop} {g : Graph}
    (husable : ∀ node ∈ g.nodes, isUsableName (sanitizeLabel node.label) = true)
    (hlabels : (g.nodes.map fun node => sanitizeLabel node.label).Nodup)
    (hnames : ∀ node ∈ g.nodes, node.fileNames.Nodup ∧
      ∀ name ∈ node.fileNames, name ∉ g.nodes.map fun node => sanitizeLabel node.label)
    (hlevels : LevelsComplete g.nodes)
    (hedges : ∀ node ∈ g.nodes,
      (∀ e ∈ activeEdges g.edges node.id,
        (∃ name, e.dependencyName = some name ∧ name ≠ "") ∧
          ∃ target path, IsPlaced g.nodes target path ∧ target.id = e.target) ∧
        ((activeEdges g.edges node.id).map (·.dependencyName)).Nodup)
    (hfiles : ∀ node ∈ g.nodes, ∀ file ∈ node.files,
      Attachment.isValidName file.fileName = true ∧ hasFile file.fileId) :
    CanGenerate hasFile g := by
  have hmem : ∀ {node path}, IsPlaced g.nodes node path → node ∈ g.nodes := by
    rintro node path ⟨_, parts, hlies, _⟩
    exact hlies.mem
  have hlabelsUsable : LabelsUsable g.nodes := fun node path hnode =>
    isUsableName_iff.1 (husable node (hmem hnode))
  refine ⟨hlabelsUsable, fun node node' path hnode hnode' => ?_, hlevels,
    fun node path hnode _ => hedges node (hmem hnode),
    fun node path hnode => hfiles node (hmem hnode), fun node path hnode =>
      ⟨(hnames node (hmem hnode)).1, fun name hname child path' hchild hpath => ?_⟩⟩
  · obtain ⟨front, hplain, rfl⟩ := hnode.exists_parts hlabelsUsable
    obtain ⟨front', hplain', hpath⟩ := hnode'.exists_parts hlabelsUsable
    obtain ⟨_, hlabel⟩ := List.append_inj' (Path.unsplit_inj hplain hplain' hpath) rfl
    exact List.inj_on_of_nodup_map hlabels (hmem hnode) (hmem hnode') (List.singleton_inj.1 hlabel)
  · obtain ⟨front, hplain, hpath'⟩ := hchild.exists_parts hlabelsUsable
    have hsplit := congrArg Path.split (hpath'.symm.trans hpath)
    have hname' : Path.split name = [name] := (Path.IsPlain.split
      (Node.isPlain_fileNames (fun file hfile => (hfiles node (hmem hnode) file hfile).1) name
        hname))
    rw [Path.split_unsplit_of_plain (by simp) hplain, Path.split_append_slash, hname'] at hsplit
    obtain ⟨_, hlabel⟩ := List.append_inj' hsplit rfl
    refine (hnames node (hmem hnode)).2 name hname (List.mem_map.2 ⟨child, hmem hchild, ?_⟩)
    exact List.singleton_inj.1 hlabel

/-- Without edges and attached files, only labels, names and levels can be wrong. -/
theorem canGenerate_of_bare {hasFile : String → Prop} {g : Graph} (hedges : g.edges = [])
    (hfiles : ∀ node ∈ g.nodes, node.files = [])
    (husable : ∀ node ∈ g.nodes, isUsableName (sanitizeLabel node.label) = true)
    (hlabels : (g.nodes.map fun node => sanitizeLabel node.label).Nodup)
    (hnames : ∀ node ∈ g.nodes, node.fileNames.Nodup ∧
      ∀ name ∈ node.fileNames, name ∉ g.nodes.map fun node => sanitizeLabel node.label)
    (hlevels : LevelsComplete g.nodes) : CanGenerate hasFile g := by
  refine canGenerate_of_labels husable hlabels hnames hlevels (fun node _ => ?_)
    fun node hnode file hfile => ?_
  · rw [hedges]
    exact ⟨fun e he => absurd (mem_activeEdges.1 he).1 List.not_mem_nil, List.nodup_nil⟩
  · rw [hfiles node hnode] at hfile
    cases hfile

end Success

/-! ### Success and the first failure -/

/-- Where ids are distinct and attachments are in memory, a graph is generated exactly when the six
conditions hold.  Labels come first among the failures, then directories, then levels of
settings. -/
theorem ofGraph_succeeds_iff {g : Graph} {store : MemoryStore} (hids : DistinctIds g.nodes)
    (hstore : store.IsReachable) (moduleBase : String) :
    ((∃ archive, Archive.ofGraph store moduleBase g = .ok archive) ↔
        CanGenerate (fun id => ∃ record, store.records.find? id = some record) g) ∧
      (¬ LabelsUsable g.nodes → ∃ node path, IsPlaced g.nodes node path ∧
        (sanitizeLabel node.label = "" ∨ sanitizeLabel node.label = "." ∨
          sanitizeLabel node.label = "..") ∧
        Archive.ofGraph store moduleBase g = .error (.missingLabel node.id)) ∧
      (LabelsUsable g.nodes → ¬ DirectoriesDistinct g.nodes →
        ∃ node node' path, IsPlaced g.nodes node path ∧ IsPlaced g.nodes node' path ∧
          node ≠ node' ∧
          Archive.ofGraph store moduleBase g = .error (.pathCollision path node.id node'.id)) ∧
      (LabelsUsable g.nodes → DirectoriesDistinct g.nodes → ¬ LevelsComplete g.nodes →
        ∃ type ∈ NodeType.settingsTypes, (∀ node ∈ g.nodes, node.type ≠ type) ∧
          Archive.ofGraph store moduleBase g = .error (.incompleteGraph type)) := by
  refine ⟨?_, Archive.ofGraph_of_not_labelsUsable hids,
    Archive.ofGraph_of_not_directoriesDistinct hids, Archive.ofGraph_of_not_levelsComplete hids⟩
  rw [Archive.exists_ofGraph_eq_ok_iff hids, Archive.hasFile_eq_of_isReachable hstore]

/-! ### A graph with two modules -/

namespace TwoModules

/-- A node that lies directly below the one with the label `parent`. -/
def nodeBelow (type : NodeType) (parent : Option String) (label : String) (files : List FileRef) :
    Node where
  id := label
  type := type
  parentId := parent
  depth := 0
  label := label
  locals := .empty
  inputs := .empty
  files := files
  position := .origin
  size := .none

def account : Node := nodeBelow .account none "live" []
def environment : Node := nodeBelow .environment (some "live") "prod" []
def region : Node := nodeBelow .region (some "prod") "south" []
def zone : Node := nodeBelow .zone (some "south") "inner" []
def tier : Node := nodeBelow .tier (some "inner") "web" []
def network : Node := nodeBelow (.remote "vpc") (some "web") "network" []

/-- What is attached to the database. -/
def schema : ByteArray := "create table".toUTF8

def schemaId : String := (Attachment.ofFile "schema.sql" "database" schema).id

def database : Node :=
  nodeBelow (.remote "rds") (some "web") "database" [⟨"schema.sql", schemaId⟩]

/-- One node of each level, and two modules of which one depends on the other. -/
def graph : Graph where
  nodes := [account, environment, region, zone, tier, network, database]
  edges := [⟨"e", "database", "network", some "vpc", true, none, none⟩]

/-- A store that the file was uploaded to. -/
def store : MemoryStore := (StoreRequest.put "schema.sql" "database" schema).perform .empty

theorem distinctIds : DistinctIds graph.nodes := by
  decide

theorem isReachable_store : store.IsReachable :=
  .step _ .empty

theorem exists_record : ∃ record, store.records.find? schemaId = some record := by
  have hvalid : Attachment.isValidName "schema.sql" = true := by decide
  have hstore : store = MemoryStore.empty.add
      (Attachment.ofFile "schema.sql" "database" schema) schema := by
    rw [store, StoreRequest.perform, MemoryStore.runIn_put, hvalid]
    rfl
  rw [hstore]
  exact ⟨_, SortedMap.find?_insert_self _ _ _⟩

theorem isPlaced_network : ∃ path, IsPlaced graph.nodes network path := by
  refine ⟨_, by decide, _, ⟨[tier, zone, region, environment, account], ?_, rfl⟩, rfl⟩
  simp [IsLineage, graph, network, tier, zone, region, environment, account, nodeBelow]

theorem canGenerate :
    CanGenerate (fun id => ∃ record, store.records.find? id = some record) graph := by
  refine canGenerate_of_labels (by decide) (by decide) (by decide) (by decide)
    (fun node _ => ⟨fun e he => ?_, ?_⟩) fun node hnode file hfile => ?_
  · obtain ⟨hmem, _, _⟩ := mem_activeEdges.1 he
    obtain rfl := List.mem_singleton.1 hmem
    obtain ⟨path, hplaced⟩ := isPlaced_network
    exact ⟨⟨"vpc", rfl, by decide⟩, network, path, hplaced, rfl⟩
  · have hedges : (graph.edges.map (·.dependencyName)).Nodup := by decide
    exact (List.filter_sublist.map _).nodup hedges
  · have hfiles : ∀ node ∈ graph.nodes, ∀ file ∈ node.files,
        file = ⟨"schema.sql", schemaId⟩ := by
      simp [graph, account, environment, region, zone, tier, network, database, nodeBelow]
    rw [hfiles node hnode file hfile]
    exact ⟨by decide, exists_record⟩

theorem exists_archive (moduleBase : String) :
    ∃ archive, Archive.ofGraph store moduleBase graph = .ok archive := by
  rw [Archive.exists_ofGraph_eq_ok_iff distinctIds,
    Archive.hasFile_eq_of_isReachable isReachable_store]
  exact canGenerate

/-- The graph meets all six conditions, so it is generated. -/
theorem ofGraph_succeeds : DistinctIds graph.nodes ∧ store.IsReachable ∧
    ∃ archive, Archive.ofGraph store ModuleSource.defaultBase graph = .ok archive :=
  ⟨distinctIds, isReachable_store,
    (ofGraph_succeeds_iff distinctIds isReachable_store _).1.2 canGenerate⟩

end TwoModules

end InfraGraph
