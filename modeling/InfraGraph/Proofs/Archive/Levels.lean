import InfraGraph.Proofs.Archive.Contents

/-!
# Levels of settings in an archive

A graph is only generated if every level of settings occurs among its nodes, but files are written
for the nodes that have a directory.  The two agree where the parents of all nodes lead to the top.
Elsewhere a level may be left out of the archive, as all nodes of it may be below a parent that is
missing.
-/

namespace InfraGraph

/-- The configuration file of a level tells the level. -/
theorem NodeType.hasOutput_and_outputFileName_eq_iff {level t : NodeType}
    (h : level ∈ settingsTypes) :
    (t.hasOutput = true ∧ level.outputFileName = t.outputFileName) ↔ t = level := by
  simp only [settingsTypes, List.mem_cons, List.not_mem_nil, or_false] at h
  rcases h with rfl | rfl | rfl | rfl | rfl <;> cases t <;>
    simp [hasOutput, outputFileName, defaultFileName]

theorem NodeType.outputFileName_ne_defaultFileName {level : NodeType} (h : level ∈ settingsTypes) :
    level.outputFileName ≠ defaultFileName := by
  simp only [settingsTypes, List.mem_cons, List.not_mem_nil, or_false] at h
  rcases h with rfl | rfl | rfl | rfl | rfl <;> simp [outputFileName, defaultFileName]

theorem Node.outputFileName_mem_fileNames {level : NodeType} (h : level ∈ NodeType.settingsTypes)
    {node : Node} :
    level.outputFileName ∈ node.fileNames ↔
      node.type = level ∨ ∃ file ∈ node.files, file.fileName = level.outputFileName := by
  rw [mem_fileNames, NodeType.hasOutput_and_outputFileName_eq_iff h]

namespace Archive

/-- A file has the name, whatever directory it lies in. -/
def HasFileNamed (archive : Archive) (name : String) : Prop :=
  ∃ path contents, ⟨path, some contents⟩ ∈ archive.entries ∧
    (Path.split path).getLast? = some name

section Levels

variable {σ : Type} [AttachmentStore σ] {store : σ} {moduleBase : String} {g : Graph}
  {paths : PathMap}

theorem getLast?_split_append_slash {path name : String} (h : Path.IsPlain name) :
    (Path.split (path ++ "/" ++ name)).getLast? = some name := by
  rw [Path.split_append_slash, h.split, List.getLast?_concat]

/-- But for the name of the file at the top, the names of files are those that nodes with a
directory have for theirs. -/
theorem hasFileNamed_ofPlan_iff (h : IsGenerable store moduleBase g paths) {name : String}
    (hname : name ≠ NodeType.defaultFileName) :
    (ofPlan store moduleBase g paths).HasFileNamed name ↔
      ∃ placed ∈ placedNodes g paths.toList, name ∈ placed.1.fileNames := by
  have hplain : ∀ placed ∈ placedNodes g paths.toList, ∀ name ∈ placed.1.fileNames,
      Path.IsPlain name := fun placed hplaced => Node.isPlain_fileNames (h.valid placed hplaced)
  simp only [HasFileNamed, mem_entries_ofPlan_some_iff h]
  constructor
  · rintro ⟨_, contents, ⟨file, hfile, rfl, _⟩, hlast⟩
    rcases List.mem_cons.1 hfile with rfl | hfile
    · have hsplit : Path.split bootstrapFile.path = [NodeType.defaultFileName] :=
        (NodeType.isPlain_outputFileName .root).split
      rw [hsplit, List.getLast?_singleton, Option.some.injEq] at hlast
      exact absurd hlast.symm hname
    · obtain ⟨placed, hplaced, own, hown, hpath⟩ := exists_name_of_mem_plannedFiles hfile
      rw [hpath, getLast?_split_append_slash (hplain placed hplaced own hown),
        Option.some.injEq] at hlast
      exact ⟨placed, hplaced, hlast ▸ hown⟩
  · rintro ⟨placed, hplaced, hmem⟩
    have hpath : placed.2 ++ "/" ++ name ∈
        (plannedFiles store moduleBase g paths).map (·.path) :=
      plannedFiles_paths_perm.mem_iff.2
        (List.mem_flatMap.2 ⟨placed, hplaced, List.mem_map.2 ⟨name, hmem, rfl⟩⟩)
    obtain ⟨file, hfile, hpath⟩ := List.mem_map.1 hpath
    refine ⟨_, _, ⟨file, List.mem_cons_of_mem _ hfile, rfl, rfl⟩, ?_⟩
    rw [hpath, getLast?_split_append_slash (hplain placed hplaced name hmem)]

/-- Every level occurs among the nodes of a graph that is generated.  The archive has a file of the
level if a node of it has a directory, or if a file of that name is attached to one that has, so it
has all of them where all parents lead to the top. -/
theorem ofGraph_hasLevels {archive : Archive} (h : ofGraph store moduleBase g = .ok archive) :
    LevelsComplete g.nodes ∧ ∃ paths, resolvePaths g.nodes = .ok paths ∧
      (∀ level ∈ NodeType.settingsTypes, archive.HasFileNamed level.outputFileName ↔
        ∃ node path, lastNode? g node.id = some node ∧ paths.find? node.id = some path ∧
          (node.type = level ∨ ∃ file ∈ node.files, file.fileName = level.outputFileName)) ∧
      (DistinctIds g.nodes → (∀ node ∈ g.nodes, ∃ parts, LiesAt g.nodes node parts) →
        ∀ level ∈ NodeType.settingsTypes, archive.HasFileNamed level.outputFileName) := by
  obtain ⟨paths, hgenerable, rfl⟩ := ofGraph_eq_ok_iff.1 h
  have hcomplete := missingLevel?_eq_none_iff.1 hgenerable.complete
  have hfile : ∀ level ∈ NodeType.settingsTypes,
      (ofPlan store moduleBase g paths).HasFileNamed level.outputFileName ↔
        ∃ placed ∈ placedNodes g paths.toList, placed.1.type = level ∨
          ∃ file ∈ placed.1.files, file.fileName = level.outputFileName := by
    intro level hlevel
    rw [hasFileNamed_ofPlan_iff hgenerable (NodeType.outputFileName_ne_defaultFileName hlevel)]
    simp only [Node.outputFileName_mem_fileNames hlevel]
  refine ⟨hcomplete, paths, hgenerable.resolved, fun level hlevel => ?_,
    fun hids hparents level hlevel => ?_⟩
  · rw [hfile level hlevel]
    simp only [Prod.exists, mem_placedNodes_iff, and_assoc]
  · obtain ⟨node, hnode, rfl⟩ := hcomplete level hlevel
    obtain ⟨parts, hlies⟩ := hparents node hnode
    have hroot : node.type ≠ .root := by
      rintro hroot
      simp [hroot, NodeType.settingsTypes] at hlevel
    exact (hfile _ hlevel).2 ⟨(node, _),
      (mem_placedNodes_iff_isPlaced hids hgenerable.resolved).2 ⟨hroot, parts, hlies, rfl⟩, .inl rfl⟩

end Levels

end Archive

/-- The graph with two modules has the file of every level. -/
theorem TwoModules.archive_hasLevels :
    ∃ archive, Archive.ofGraph store ModuleSource.defaultBase graph = .ok archive ∧
      ∀ level ∈ NodeType.settingsTypes, archive.HasFileNamed level.outputFileName := by
  obtain ⟨archive, harchive⟩ := exists_archive ModuleSource.defaultBase
  obtain ⟨_, paths, _, _, hall⟩ := Archive.ofGraph_hasLevels harchive
  refine ⟨archive, harchive, hall distinctIds fun node hnode => ?_⟩
  -- Every node is one of the modules or above it.
  have hlineage : ∀ module ∈ [network, database], IsLineage graph.nodes
      (module :: [tier, zone, region, environment, account]) := by
    simp [IsLineage, graph, network, database, tier, zone, region, environment, account, nodeBelow]
  have hmodule : ∃ module ∈ [network, database],
      node ∈ module :: [tier, zone, region, environment, account] := by
    simp only [graph, List.mem_cons, List.not_mem_nil, or_false] at hnode ⊢
    simp only [exists_eq_or_imp, exists_eq_left]
    tauto
  obtain ⟨module, hmodule, hmem⟩ := hmodule
  obtain ⟨below, above, habove⟩ := List.append_of_mem hmem
  exact ⟨_, above, (hlineage module hmodule).of_suffix ⟨below, habove.symm⟩, rfl⟩

/-! ### A level below a parent that is missing -/

namespace LostLevel

open TwoModules (nodeBelow)

def lost : Node := nodeBelow .tier (some "gone") "web" []

/-- One node of each level, where the parent of the last one is missing. -/
def graph : Graph where
  nodes := [
    nodeBelow .account none "live" [],
    nodeBelow .environment (some "live") "prod" [],
    nodeBelow .region (some "prod") "south" [],
    nodeBelow .zone (some "south") "inner" [],
    lost
  ]
  edges := []

theorem distinctIds : DistinctIds graph.nodes := by
  decide

theorem files_eq_nil : ∀ node ∈ graph.nodes, node.files = [] := by
  simp [graph, lost, nodeBelow]

theorem canGenerate (hasFile : String → Prop) : CanGenerate hasFile graph :=
  canGenerate_of_bare rfl files_eq_nil (by decide) (by decide) (by decide) (by decide)

/-- The graph is generated, but no file of the last level is in the archive. -/
theorem not_hasFileNamed_tier :
    ∃ archive, Archive.ofGraph MemoryStore.empty ModuleSource.defaultBase graph = .ok archive ∧
      ¬ archive.HasFileNamed "tier.hcl" := by
  have hgenerated : ∃ archive,
      Archive.ofGraph MemoryStore.empty ModuleSource.defaultBase graph = .ok archive :=
    (Archive.exists_ofGraph_eq_ok_iff distinctIds).2 (canGenerate _)
  obtain ⟨archive, harchive⟩ := hgenerated
  refine ⟨archive, harchive, fun hfile => ?_⟩
  obtain ⟨paths, hgenerable, rfl⟩ := Archive.ofGraph_eq_ok_iff.1 harchive
  have hlevel : NodeType.tier ∈ NodeType.settingsTypes := by decide
  have hfileNamed := Archive.hasFileNamed_ofPlan_iff hgenerable
    (NodeType.outputFileName_ne_defaultFileName hlevel)
  obtain ⟨⟨node, path⟩, hplaced, hname⟩ := hfileNamed.1 hfile
  obtain ⟨_, parts, hlies, _⟩ :=
    (Archive.mem_placedNodes_iff_isPlaced distinctIds hgenerable.resolved).1 hplaced
  have htier : node.type = .tier := by
    have htype := (Node.outputFileName_mem_fileNames hlevel).1 hname
    simpa [files_eq_nil node hlies.mem] using htype
  have hlost : ∀ node ∈ graph.nodes, node.type = .tier → node = lost := by
    simp [graph, lost, nodeBelow]
  obtain rfl := hlost node hlies.mem htier
  have hgone : "gone" ∉ graph.nodes.map (·.id) := by decide
  exact not_liesAt_of_parentId rfl hgone parts hlies

end LostLevel

end InfraGraph
