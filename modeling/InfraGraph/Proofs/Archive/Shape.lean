import InfraGraph.Proofs.Archive.Contents

/-!
# The shape of an archive

An archive can be unpacked if no file lies where a directory is to be, or above another entry.
Above the entries of a generated archive there are only directories of nodes, and every file but the
fixed one at the top is checked against these.  The fixed file isn't, so everything depends on
whether a node has the directory `terragrunt.hcl`.
-/

namespace InfraGraph

namespace Archive

/-- No file is in the way of a directory or of anything that is to lie in one. -/
structure IsFileTree (archive : Archive) : Prop where
  not_directory : ∀ path contents, ⟨path, some contents⟩ ∈ archive.entries →
    ⟨path ++ "/", none⟩ ∉ archive.entries
  not_above : ∀ path contents, ⟨path, some contents⟩ ∈ archive.entries →
    ∀ entry ∈ archive.entries, ¬ (path ++ "/").toList <+: entry.name.toList

section Shape

variable {σ : Type} [AttachmentStore σ] {store : σ} {moduleBase : String} {g : Graph}
  {paths : PathMap}

/-- Every entry lies at the top, or in the directory of a node. -/
theorem exists_split_entry (h : IsGenerable store moduleBase g paths) {entry : ArchiveEntry}
    (hentry : entry ∈ (ofPlan store moduleBase g paths).entries) :
    ∃ parts last, Path.split entry.name = parts ++ [last] ∧
      (parts = [] ∨ (∀ part ∈ parts, Path.IsPlain part) ∧ Path.unsplit parts ∈ paths.values) := by
  rcases cases_of_mem_entries h hentry with
    ⟨path, hpath, rfl⟩ | rfl | ⟨placed, hplaced, name, hname, contents, rfl⟩
  · obtain ⟨parts, hne, hplain, rfl⟩ := exists_parts_of_mem_values h.resolved hpath
    have hsplit := Path.split_append_slash (Path.unsplit parts) ""
    have hend : Path.split "" = [""] := Path.split_of_not_mem (by simp)
    rw [String.append_empty, Path.split_unsplit_of_plain hne hplain, hend] at hsplit
    exact ⟨parts, "", hsplit, .inr ⟨hplain, hpath⟩⟩
  · exact ⟨[], _, (NodeType.isPlain_outputFileName .root).split, .inl rfl⟩
  · have hplainName := Node.isPlain_fileNames (h.valid placed hplaced) name hname
    have hvalue := mem_values_of_mem_placedNodes hplaced
    obtain ⟨parts, hne, hplain, hparts⟩ := exists_parts_of_mem_values h.resolved hvalue
    refine ⟨parts, name, ?_, .inr ⟨hplain, hparts ▸ hvalue⟩⟩
    rw [Path.split_append_slash, hplainName.split, hparts, Path.split_unsplit_of_plain hne hplain]

/-- Above an entry there are only directories of nodes. -/
theorem mem_values_of_above (h : IsGenerable store moduleBase g paths) {entry : ArchiveEntry}
    (hentry : entry ∈ (ofPlan store moduleBase g paths).entries) {path : String}
    (habove : (path ++ "/").toList <+: entry.name.toList) : path ∈ paths.values := by
  obtain ⟨rest, hrest⟩ := habove
  have hname : entry.name = path ++ "/" ++ String.ofList rest := by
    rw [← String.toList_inj, String.toList_append, String.toList_ofList, hrest]
  obtain ⟨parts, last, hsplit, hparts⟩ := exists_split_entry h hentry
  obtain ⟨back, final, hback⟩ :=
    (List.eq_nil_or_concat' (Path.split (String.ofList rest))).resolve_left (Path.split_ne_nil _)
  rw [hname, Path.split_append_slash, hback, ← List.append_assoc] at hsplit
  obtain ⟨rfl, _⟩ := List.append_inj' hsplit rfl
  rcases hparts with hnil | ⟨hplain, hvalue⟩
  · exact absurd (List.append_eq_nil_iff.1 hnil).1 (Path.split_ne_nil path)
  · have hfront := mem_values_of_append h.resolved (Path.split_ne_nil path) hplain hvalue
    rwa [Path.unsplit_split] at hfront

theorem isFileTree_ofPlan_iff (h : IsGenerable store moduleBase g paths) :
    (ofPlan store moduleBase g paths).IsFileTree ↔ NodeType.defaultFileName ∉ paths.values := by
  have hdirectory : ∀ path, ⟨path ++ "/", none⟩ ∈ (ofPlan store moduleBase g paths).entries →
      path ∈ paths.values := fun path hentry =>
    mem_values_of_above h hentry List.prefix_rfl
  constructor
  · intro htree hvalue
    refine htree.not_directory NodeType.defaultFileName bootstrapFile.contents ?_ ?_
    · rw [mem_entries_ofPlan_some_iff h]
      exact ⟨bootstrapFile, List.mem_cons_self, rfl, rfl⟩
    · rw [mem_entries_ofPlan_none_iff h.resolved]
      exact ⟨_, hvalue, rfl⟩
  · intro hfree
    have hfiles : ∀ path contents,
        ⟨path, some contents⟩ ∈ (ofPlan store moduleBase g paths).entries →
          path ∉ paths.values := by
      intro path contents hentry
      rw [mem_entries_ofPlan_some_iff h] at hentry
      obtain ⟨file, hfile, rfl, _⟩ := hentry
      rcases List.mem_cons.1 hfile with rfl | hfile
      · exact hfree
      · exact h.free file hfile
    exact ⟨fun path contents hfile hentry => hfiles path contents hfile (hdirectory path hentry),
      fun path contents hfile entry hentry habove =>
        hfiles path contents hfile (mem_values_of_above h hentry habove)⟩

/-- Generated files and attached files are in nobody's way, whatever labels there are. -/
theorem not_above_of_ne_bootstrap (h : IsGenerable store moduleBase g paths) {path : String}
    {contents : ByteArray}
    (hfile : ⟨path, some contents⟩ ∈ (ofPlan store moduleBase g paths).entries)
    (hne : path ≠ NodeType.defaultFileName) :
    ∀ entry ∈ (ofPlan store moduleBase g paths).entries,
      ¬ (path ++ "/").toList <+: entry.name.toList := by
  intro entry hentry habove
  have hvalue := mem_values_of_above h hentry habove
  rw [mem_entries_ofPlan_some_iff h] at hfile
  obtain ⟨file, hmem, rfl, _⟩ := hfile
  rcases List.mem_cons.1 hmem with rfl | hmem
  · exact hne rfl
  · exact h.free file hmem hvalue

/-- A generated archive is a tree of files exactly when no node has the directory
`terragrunt.hcl`.  Ids may be repeated. -/
theorem ofGraph_isFileTree_iff {archive : Archive}
    (h : ofGraph store moduleBase g = .ok archive) :
    ∃ paths, resolvePaths g.nodes = .ok paths ∧
      (archive.IsFileTree ↔ ∀ id, paths.find? id ≠ some "terragrunt.hcl") ∧
      ∀ path contents, ⟨path, some contents⟩ ∈ archive.entries → path ≠ "terragrunt.hcl" →
        ⟨path ++ "/", none⟩ ∉ archive.entries ∧
          ∀ entry ∈ archive.entries, ¬ (path ++ "/").toList <+: entry.name.toList := by
  obtain ⟨paths, hgenerable, rfl⟩ := ofGraph_eq_ok_iff.1 h
  refine ⟨paths, hgenerable.resolved, ?_, fun path contents hfile hne => ?_⟩
  · rw [isFileTree_ofPlan_iff hgenerable, SortedMap.mem_values_iff, not_exists]
    rfl
  · have habove := not_above_of_ne_bootstrap hgenerable hfile hne
    exact ⟨fun hentry => habove _ hentry List.prefix_rfl, habove⟩

end Shape

end Archive

/-- No node of the graph with two modules lies in the way of the fixed file. -/
theorem TwoModules.archive_isFileTree_iff :
    ∃ archive, Archive.ofGraph store ModuleSource.defaultBase graph = .ok archive ∧
      ∃ paths, resolvePaths graph.nodes = .ok paths ∧
        (archive.IsFileTree ↔ ∀ id, paths.find? id ≠ some "terragrunt.hcl") ∧
        ∀ path contents, ⟨path, some contents⟩ ∈ archive.entries → path ≠ "terragrunt.hcl" →
          ⟨path ++ "/", none⟩ ∉ archive.entries ∧
            ∀ entry ∈ archive.entries, ¬ (path ++ "/").toList <+: entry.name.toList := by
  obtain ⟨archive, harchive⟩ := exists_archive ModuleSource.defaultBase
  exact ⟨archive, harchive, Archive.ofGraph_isFileTree_iff harchive⟩

/-! ### A node in the way of the fixed file -/

namespace ShadowedTop

open TwoModules (nodeBelow)

def account : Node := nodeBelow .account none "terragrunt.hcl" []

/-- One node of each level, where the one at the top has the label `terragrunt.hcl`. -/
def graph : Graph where
  nodes := [
    account,
    nodeBelow .environment (some "terragrunt.hcl") "prod" [],
    nodeBelow .region (some "prod") "south" [],
    nodeBelow .zone (some "south") "inner" [],
    nodeBelow .tier (some "inner") "web" []
  ]
  edges := []

theorem distinctIds : DistinctIds graph.nodes := by
  decide

theorem canGenerate (hasFile : String → Prop) : CanGenerate hasFile graph :=
  canGenerate_of_bare rfl (by simp [graph, account, nodeBelow]) (by decide) (by decide) (by decide)
    (by decide)

theorem isPlaced_account : IsPlaced graph.nodes account "terragrunt.hcl" := by
  refine ⟨by decide, ["terragrunt.hcl"], ⟨[], ?_, by decide⟩, by simp⟩
  simp [IsLineage, graph, account, nodeBelow]

/-- The graph is generated, but the fixed file lies where the directory of the account is to be. -/
theorem not_isFileTree :
    ∃ archive, Archive.ofGraph MemoryStore.empty ModuleSource.defaultBase graph = .ok archive ∧
      (∃ contents, ⟨"terragrunt.hcl", some contents⟩ ∈ archive.entries) ∧
      ⟨"terragrunt.hcl/", none⟩ ∈ archive.entries ∧ ¬ archive.IsFileTree := by
  have hgenerated : ∃ archive,
      Archive.ofGraph MemoryStore.empty ModuleSource.defaultBase graph = .ok archive :=
    (Archive.exists_ofGraph_eq_ok_iff distinctIds).2 (canGenerate _)
  obtain ⟨archive, harchive⟩ := hgenerated
  obtain ⟨paths, hgenerable, rfl⟩ := Archive.ofGraph_eq_ok_iff.1 harchive
  have hvalue : NodeType.defaultFileName ∈ paths.values :=
    (Archive.mem_values_iff_isPlaced distinctIds hgenerable.resolved).2 ⟨_, isPlaced_account⟩
  refine ⟨_, harchive, ⟨Archive.bootstrapFile.contents, ?_⟩, ?_, fun htree => ?_⟩
  · rw [Archive.mem_entries_ofPlan_some_iff hgenerable]
    exact ⟨_, List.mem_cons_self, rfl, rfl⟩
  · rw [Archive.mem_entries_ofPlan_none_iff hgenerable.resolved]
    exact ⟨_, hvalue, rfl⟩
  · exact (Archive.isFileTree_ofPlan_iff hgenerable).1 htree hvalue

end ShadowedTop

end InfraGraph
