import InfraGraph.Proofs.Import.Folder

/-!
# Graphs that can be restored

Every folder in the tree of a graph makes a node, if the graph has the shape of a tree with
configuration files: at its top are nodes with configuration files, every folder has something to
be kept for, and every configuration file can be read again.
-/

namespace InfraGraph

/-- A node without parent lies under its label, and any other one below its parent. -/
theorem LiesAt.cases_parent {nodes : List Node} {node : Node} {parts : List String}
    (hroots : ∀ node ∈ nodes, node.type ≠ .root) (h : LiesAt nodes node parts) :
    (node.parentId = none ∧ parts = [sanitizeLabel node.label]) ∨
      ∃ parent front, node.parentId = some parent.id ∧ LiesAt nodes parent front ∧
        parts = front ++ [sanitizeLabel node.label] := by
  obtain ⟨above, hlineage, rfl⟩ := h
  rw [directoryParts_of_ne_root (hroots node hlineage.1)]
  cases above with
  | nil => exact .inl ⟨hlineage.2.1, rfl⟩
  | cons parent rest => exact .inr ⟨parent, _, hlineage.2.1, ⟨rest, hlineage.tail, rfl⟩, rfl⟩

/-- What a graph needs so that its tree makes the same graph again. -/
structure IsRestorable (moduleBase : String) (g : Graph) : Prop where
  /-- Chains of parents reach the top. -/
  placed : ∀ node ∈ g.nodes, ∃ parts, LiesAt g.nodes node parts
  types : ∀ node ∈ g.nodes, node.type ≠ .root ∧ node.type ≠ .file
  /-- Nodes at the top have configuration files, and don't lie in the way of the fixed one. -/
  top : ∀ node ∈ g.nodes, node.parentId = none →
    node.type.hasOutput = true ∧ node.label ≠ NodeType.defaultFileName
  labels : ∀ node ∈ g.nodes, sanitizeLabel node.label = node.label
  /-- Folders have something attached or generated, in themselves or below. -/
  used : ∀ node ∈ g.nodes, node.type = .folder → ∃ below above,
    IsLineage g.nodes (below :: above) ∧ node ∈ below :: above ∧
      (below.files ≠ [] ∨ below.type.hasOutput = true)
  /-- No attached file is taken for the configuration file of another type. -/
  attached : ∀ node ∈ g.nodes, ∀ file ∈ node.files, file.fileName ∉ node.type.rivalNames
  sources : ∀ e ∈ g.edges, e.enabled = true →
    ∃ node ∈ g.nodes, node.id = e.source ∧ node.type.hasOutput = true
  readable : ∀ paths, resolvePaths g.nodes = .ok paths → ∀ node path dependencies,
    IsPlaced g.nodes node path → node.type.hasOutput = true →
    resolveDependencies node.id path (g.outgoing node.id) paths = .ok dependencies →
    (Archive.configFile moduleBase node dependencies).ReadsBack node.type.module?

namespace IsRestorable

open Archive (IsGenerable IsTreeOf)

variable {σ : Type} [AttachmentStore σ] {store : σ} {moduleBase : String} {g : Graph}
  {paths : PathMap} {t : FileTree}

theorem isPlaced (hg : IsRestorable moduleBase g) {node : Node} {parts : List String}
    (hlies : LiesAt g.nodes node parts) : IsPlaced g.nodes node (Path.unsplit parts) :=
  ⟨(hg.types node hlies.mem).1, parts, hlies, rfl⟩

theorem cases_parent (hg : IsRestorable moduleBase g) {node : Node} {parts : List String}
    (hlies : LiesAt g.nodes node parts) :
    (node.parentId = none ∧ parts = [node.label]) ∨
      ∃ parent front, node.parentId = some parent.id ∧ LiesAt g.nodes parent front ∧
        parts = front ++ [node.label] := by
  have hcases := hlies.cases_parent fun node hnode => (hg.types node hnode).1
  rwa [hg.labels node hlies.mem] at hcases

theorem ne_nil (hg : IsRestorable moduleBase g) {node : Node} {parts : List String}
    (hlies : LiesAt g.nodes node parts) : parts ≠ [] :=
  hlies.ne_nil (hg.types node hlies.mem).1

/-- The directory of the fixed file is free. -/
theorem defaultFileName_not_mem (hg : IsRestorable moduleBase g) (hids : DistinctIds g.nodes)
    (h : resolvePaths g.nodes = .ok paths) : NodeType.defaultFileName ∉ paths.values := by
  intro hvalue
  obtain ⟨node, _, parts, hlies, hpath⟩ := (Archive.mem_values_iff_isPlaced hids h).1 hvalue
  rw [← Path.unsplit_singleton NodeType.defaultFileName] at hpath
  have hparts := Path.unsplit_inj NodeType.isPlain_defaultFileName (hlies.isPlain h) hpath
  rcases hg.cases_parent hlies with ⟨hnone, hlabel⟩ | ⟨parent, front, _, hparent, hlabel⟩
  · rw [← hparts] at hlabel
    exact (hg.top node hlies.mem hnone).2 (List.singleton_inj.1 hlabel).symm
  · rw [← hparts] at hlabel
    have hfront := hg.ne_nil hparent
    obtain ⟨hnil, _⟩ := @List.append_inj' _ [] _ _ _ hlabel rfl
    exact hfront hnil.symm

/-! ### The folder of a node -/

section Folder

variable {node : Node} {parts : List String} {es : List (String × FileTree)}

theorem mem_plainFiles_iff (hg : IsRestorable moduleBase g)
    (htree : IsTreeOf store moduleBase g paths t) (hlies : LiesAt g.nodes node parts)
    (hfind : t.find? parts = some (.folder es)) {name : String} {contents : ByteArray} :
    (name, contents) ∈ FileTree.plainFiles es ↔
      Archive.OwnsFile store moduleBase g paths node parts name contents := by
  have hwell := htree.wellFormed.of_find? hfind
  rw [FileTree.mem_plainFiles_iff_kindAt hfind (FileTree.wellFormed_folder_iff.1 hwell).1,
    htree.file node parts (hg.types node hlies.mem).1 hlies]

theorem nodup_plainFiles (htree : IsTreeOf store moduleBase g paths t)
    (hfind : t.find? parts = some (.folder es)) :
    ((FileTree.plainFiles es).map (·.1)).Nodup :=
  FileTree.nodup_plainFiles (FileTree.wellFormed_folder_iff.1 (htree.wellFormed.of_find? hfind)).1

theorem ofEntries_eq (hg : IsRestorable moduleBase g) (htree : IsTreeOf store moduleBase g paths t)
    (hlies : LiesAt g.nodes node parts) (hfind : t.find? parts = some (.folder es)) :
    Classification.ofEntries es = node.type.classification := by
  have hmem := @mem_plainFiles_iff _ _ _ _ _ _ _ _ _ _ hg htree hlies hfind
  obtain ⟨hroot, hfile⟩ := hg.types node hlies.mem
  refine Classification.ofFiles_eq hroot hfile (fun houtput => ?_) fun name hrival hname => ?_
  · exact List.mem_map.2 ⟨_, hmem.2 (.inl ⟨houtput, rfl, rfl⟩), rfl⟩
  · obtain ⟨⟨_, contents⟩, hfound, rfl⟩ := List.mem_map.1 hname
    rcases hmem.1 hfound with ⟨houtput, hown, _⟩ | ⟨file, hattached, hown, _⟩
    · rw [hown] at hrival
      exact NodeType.outputFileName_not_mem_rivalNames houtput hrival
    · rw [← hown] at hrival
      exact hg.attached node hlies.mem file hattached hrival

/-- The folder of a node is settled as the node. -/
theorem exists_settled (hg : IsRestorable moduleBase g) (hids : DistinctIds g.nodes)
    (h : IsGenerable store moduleBase g paths) (htree : IsTreeOf store moduleBase g paths t)
    (hlies : LiesAt g.nodes node parts) (hfind : t.find? parts = some (.folder es)) :
    ∃ settled : Scanner.Settled,
      settled.IsOf node (dependenciesOf g.edges paths node.id (Path.unsplit parts)) ∧
      ∀ path, Scanner.settleFolder (.ofEntries es) path (FileTree.plainFiles es) =
        .ok settled := by
  obtain ⟨hroot, hfile⟩ := hg.types node hlies.mem
  rw [hg.ofEntries_eq htree hlies hfind]
  refine @Scanner.exists_settleFolder_eq_ok moduleBase _ _ _ hroot hfile
    (nodup_plainFiles htree hfind) (fun houtput => ?_) fun houtput => ?_
  · exact (hg.mem_plainFiles_iff htree hlies hfind).2 (.inl ⟨houtput, rfl, rfl⟩)
  · have hplaced := hg.isPlaced hlies
    have hmem := (Archive.mem_placedNodes_iff_isPlaced hids h.resolved).2 hplaced
    refine hg.readable paths h.resolved node _ _ hplaced houtput ?_
    rw [Archive.resolveDependencies_outgoing, resolveDependencies_eq_ok_iff]
    exact ⟨h.dependencies _ hmem houtput, rfl⟩

theorem uploads_perm (hg : IsRestorable moduleBase g) (hids : DistinctIds g.nodes)
    (h : IsGenerable store moduleBase g paths) (htree : IsTreeOf store moduleBase g paths t)
    (hlies : LiesAt g.nodes node parts) (hfind : t.find? parts = some (.folder es))
    (id : String) :
    (Scanner.uploadsOf id (.ofEntries es) (FileTree.plainFiles es)).Perm
      (node.uploads store id) := by
  obtain ⟨hroot, hfile⟩ := hg.types node hlies.mem
  have hmem := (Archive.mem_placedNodes_iff_isPlaced hids h.resolved).2 (hg.isPlaced hlies)
  rw [hg.ofEntries_eq htree hlies hfind]
  have hnames := (Archive.nodup_plannedFiles_iff h.distinct h.valid).1 h.nodup _ hmem
  have hfiles : ∀ name contents, (name, contents) ∈ FileTree.plainFiles es ↔
      Archive.OwnsFile store moduleBase g paths node parts name contents :=
    fun name contents => hg.mem_plainFiles_iff htree hlies hfind
  exact Scanner.uploadsOf_perm hroot hfile (nodup_plainFiles htree hfind) hnames
    (h.stored _ hmem) hfiles id

/-- A folder that lies further down has one directly in the upper folder on its way. -/
theorem foldersOf_ne_nil (htree : IsTreeOf store moduleBase g paths t)
    (hfind : t.find? parts = some (.folder es)) {name : String} {below : Node}
    (hlies : LiesAt g.nodes below (parts ++ [name])) (hroot : below.type ≠ .root) :
    FileTree.foldersOf parts es ≠ [] := by
  have hkind : t.kindAt (parts ++ [name]) = some .folder :=
    (htree.folder _).2 (.inr ⟨below, hroot, hlies⟩)
  obtain ⟨inner, hinner⟩ := FileTree.exists_entries_of_kindAt hkind
  rw [FileTree.find?_append, hfind] at hinner
  intro hnil
  have hmem : (parts ++ [name], inner) ∈ FileTree.foldersOf parts es :=
    (FileTree.mem_foldersOf_iff (htree.wellFormed.of_find? hfind)).2 ⟨name, [], rfl, hinner⟩
  rw [hnil] at hmem
  cases hmem

/-- In a lineage there is a node below every one but the first. -/
theorem exists_child (hg : IsRestorable moduleBase g) (hids : DistinctIds g.nodes)
    {below : Node} {above : List Node} (hlineage : IsLineage g.nodes (below :: above))
    (hmem : node ∈ above) (hlies : LiesAt g.nodes node parts) :
    ∃ child, LiesAt g.nodes child (parts ++ [child.label]) := by
  induction above generalizing below with
  | nil => cases hmem
  | cons parent rest ih =>
      rcases List.mem_cons.1 hmem with rfl | hmem
      · have hparts := LiesAt.unique hids hlies ⟨rest, hlineage.tail, rfl⟩
        refine ⟨below, node :: rest, hlineage, ?_⟩
        rw [directoryParts_of_ne_root (hg.types below hlineage.1).1, hg.labels below hlineage.1,
          hparts]
      · exact ih hlineage.tail hmem

/-- The folder of a node makes a node again. -/
theorem isKept (hg : IsRestorable moduleBase g) (hids : DistinctIds g.nodes)
    (h : IsGenerable store moduleBase g paths) (htree : IsTreeOf store moduleBase g paths t)
    (hlies : LiesAt g.nodes node parts) (hfind : t.find? parts = some (.folder es)) :
    IsKept parts es := by
  obtain ⟨settled, _, hsettled⟩ := hg.exists_settled hids h htree hlies hfind
  refine ⟨hlies.isPlain h.resolved, ⟨settled, hsettled⟩, fun hlength => ?_, ?_⟩
  · rw [hg.ofEntries_eq htree hlies hfind]
    rcases hg.cases_parent hlies with ⟨hnone, _⟩ | ⟨parent, front, _, hparent, hparts⟩
    · exact NodeType.classification_ne_folder (hg.top node hlies.mem hnone).1
    · have hfront := List.length_pos_iff.2 (hg.ne_nil hparent)
      rw [hparts, List.length_append, List.length_singleton] at hlength
      omega
  · by_cases houtput : node.type.hasOutput = true
    · left
      rw [hg.ofEntries_eq htree hlies hfind]
      exact NodeType.classification_ne_folder houtput
    · right
      obtain ⟨hroot, hfile⟩ := hg.types node hlies.mem
      have hfolder := NodeType.eq_folder_of_not_hasOutput hroot hfile houtput
      obtain ⟨below, above, hlineage, hmem, hused⟩ := hg.used node hlies.mem hfolder
      rcases List.mem_cons.1 hmem with rfl | hmem
      · left
        obtain ⟨file, hfile⟩ := List.exists_mem_of_ne_nil _ (hused.resolve_right houtput)
        have hplaced := (Archive.mem_placedNodes_iff_isPlaced hids h.resolved).2 (hg.isPlaced hlies)
        obtain ⟨contents, hcontents⟩ := h.stored _ hplaced file hfile
        exact List.ne_nil_of_mem
          ((hg.mem_plainFiles_iff htree hlies hfind).2 (.inr ⟨file, hfile, rfl, hcontents⟩))
      · right
        obtain ⟨child, hchild⟩ := hg.exists_child hids hlineage hmem hlies
        exact foldersOf_ne_nil htree hfind hchild (hg.types child hchild.mem).1

end Folder

/-- Every folder in the tree of the graph is kept. -/
theorem forall_isKept (hg : IsRestorable moduleBase g) (hids : DistinctIds g.nodes)
    (h : IsGenerable store moduleBase g paths) {es : List (String × FileTree)}
    (htree : IsTreeOf store moduleBase g paths (.folder es)) :
    ∀ place ∈ FileTree.foldersOf [] es, IsKept place.1 place.2 := by
  intro place hplace
  obtain ⟨name, rest, hparts, hfind⟩ := (FileTree.mem_foldersOf_iff htree.wellFormed).1 hplace
  have hparts : place.1 = name :: rest := hparts
  have hkind : (FileTree.folder es).kindAt (name :: rest) = some .folder := by
    rw [FileTree.kindAt, hfind]
    rfl
  obtain ⟨node, _, hlies⟩ := ((htree.folder _).1 hkind).resolve_left (by simp)
  rw [hparts]
  exact hg.isKept hids h htree hlies hfind

end IsRestorable

end InfraGraph
