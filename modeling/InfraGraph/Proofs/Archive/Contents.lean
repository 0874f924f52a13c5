import InfraGraph.Proofs.Archive.Success
import InfraGraph.Proofs.Text.ByteOrder

/-!
# The contents of an archive

Where ids are distinct, an archive holds the file at the top, the configuration file of every node
that has one, and every attached file; its directories are those of the nodes.  Nothing is lost,
nothing comes twice and nothing else is there.  Directories come first, and both groups come in the
order of the bytes of their names, so that a directory is there before anything is put into it.
-/

namespace InfraGraph

namespace Archive

section Entries

variable {σ : Type} [AttachmentStore σ]

/-- The file is the configuration file of the node. -/
def IsConfigEntry (moduleBase : String) (g : Graph) (paths : PathMap) (node : Node)
    (path name : String) (contents : ByteArray) : Prop :=
  node.type.hasOutput = true ∧ name = path ++ "/" ++ node.type.outputFileName ∧
    ∃ dependencies,
      resolveDependencies node.id path (g.outgoing node.id) paths = .ok dependencies ∧
      contents = (ConfigFile.text
        { fileName := node.type.outputFileName
          moduleSource := node.type.module?.map fun module => moduleBase ++ module
          locals := node.locals
          inputs := node.inputs
          dependencies := dependencies }).toUTF8

/-- The file is attached to the node, and has the contents that the store gives back. -/
def IsAttachedEntry (store : σ) (node : Node) (path name : String) (contents : ByteArray) : Prop :=
  ∃ file ∈ node.files, name = path ++ "/" ++ file.fileName ∧
    (StoreM.runIn store (AttachmentStore.get file.fileId)).1 = .ok (some contents)

/-- An archive has the entries that a graph asks for, and no others. -/
structure HoldsExactly (store : σ) (moduleBase : String) (g : Graph) (paths : PathMap)
    (archive : Archive) : Prop where
  files : ∀ name contents, ⟨name, some contents⟩ ∈ archive.entries ↔
    (name = "terragrunt.hcl" ∧ contents = ConfigFile.bootstrapText.toUTF8) ∨
      ∃ node path, IsPlaced g.nodes node path ∧
        (IsConfigEntry moduleBase g paths node path name contents ∨
          IsAttachedEntry store node path name contents)
  directories : ∀ name, ⟨name, none⟩ ∈ archive.entries ↔
    ∃ node path, IsPlaced g.nodes node path ∧ name = path ++ "/"
  /-- No two files of a node share an entry. -/
  fileNames_nodup : ∀ node path, IsPlaced g.nodes node path → node.fileNames.Nodup
  /-- No two nodes share a directory. -/
  eq_of_path_eq : ∀ node node' path, IsPlaced g.nodes node path → IsPlaced g.nodes node' path →
    node = node'

/-- Entries come in an order in which they can be unpacked. -/
structure IsOrdered (archive : Archive) : Prop where
  names_nodup : (archive.entries.map (·.name)).Nodup
  split : ∃ directories files, archive.entries = directories ++ files ∧
    (∀ entry ∈ directories, entry.contents = none) ∧
    (∀ entry ∈ files, entry.contents ≠ none) ∧
    (directories.Pairwise fun a b => Text.bytes a.name < Text.bytes b.name) ∧
    files.Pairwise fun a b => Text.bytes a.name < Text.bytes b.name
  /-- A directory comes before everything whose name starts with it. -/
  directory_first : ∀ front entry back, archive.entries = front ++ entry :: back →
    ∀ directory ∈ archive.entries, directory.contents = none → directory ≠ entry →
      directory.name.toList <+: entry.name.toList → directory ∈ front

end Entries

/-! ### Entries of any archive -/

section Order

variable {archive : Archive}

theorem mem_entries_none_iff {name : String} :
    ⟨name, none⟩ ∈ archive.entries ↔ name ∈ archive.directories.keys := by
  simp [entries]

theorem mem_entries_some_iff {name : String} {contents : ByteArray} :
    ⟨name, some contents⟩ ∈ archive.entries ↔ archive.files.find? name = some contents := by
  simp only [entries, List.mem_append, List.mem_map, ArchiveEntry.mk.injEq, reduceCtorEq, and_false,
    exists_false, Option.some.injEq, false_or, Prod.exists]
  rw [← SortedMap.mem_toList_iff]
  simp

/-- A text that starts with another one doesn't come before it. -/
theorem lt_of_startsWith {a b : String} (h : a.toList <+: b.toList) (hne : a ≠ b) : a < b := by
  obtain ⟨rest, hrest⟩ := h
  have hne' : rest ≠ [] := by
    rintro rfl
    rw [List.append_nil, String.toList_inj] at hrest
    exact hne hrest
  change a.toList < b.toList
  rw [← hrest]
  obtain ⟨c, cs, rfl⟩ := List.exists_cons_of_ne_nil hne'
  have hlt : a.toList ++ [] < a.toList ++ c :: cs :=
    List.append_left_lt (List.nil_lt_cons c cs)
  rwa [List.append_nil] at hlt

/-- Before a directory there are only directories with smaller names. -/
theorem entries_pairwise (archive : Archive) :
    archive.entries.Pairwise fun a b =>
      b.contents = none → a.contents = none ∧ a.name < b.name := by
  have hdirectories : archive.directories.keys.Pairwise fun a b => a < b :=
    List.pairwise_map.2 archive.directories.ascending
  refine List.pairwise_append.2 ⟨?_, ?_, ?_⟩
  · exact List.pairwise_map.2 (hdirectories.imp fun hab _ => ⟨rfl, hab⟩)
  · refine List.pairwise_map.2 (List.pairwise_of_forall fun a b hnone => ?_)
    simp at hnone
  · intro a _ b hb hnone
    obtain ⟨file, _, rfl⟩ := List.mem_map.1 hb
    simp at hnone

/-- The order of entries depends on nothing but slashes at the end of names. -/
theorem isOrdered_of_slashes (hdirectories : ∀ name ∈ archive.directories.keys,
      ∃ path, name = path ++ "/")
    (hfiles : ∀ name ∈ archive.files.keys, ∀ path, name ≠ path ++ "/") : archive.IsOrdered := by
  have hnames : archive.entries.map (·.name) =
      archive.directories.keys ++ archive.files.keys := by
    simp only [entries, List.map_append, List.map_map, SortedMap.keys]
    rfl
  refine ⟨?_, ⟨_, _, rfl, ?_, ?_, ?_, ?_⟩, ?_⟩
  · rw [hnames, List.nodup_append]
    refine ⟨archive.directories.keys_nodup, archive.files.keys_nodup, ?_⟩
    rintro name hname _ hmem rfl
    obtain ⟨path, hpath⟩ := hdirectories name hname
    exact hfiles name hmem path hpath
  · intro entry hentry
    obtain ⟨name, _, rfl⟩ := List.mem_map.1 hentry
    rfl
  · intro entry hentry
    obtain ⟨file, _, rfl⟩ := List.mem_map.1 hentry
    simp
  · have horder : archive.directories.keys.Pairwise fun a b => a < b :=
      List.pairwise_map.2 archive.directories.ascending
    exact List.pairwise_map.2 (horder.imp fun hab => Text.bytes_lt_iff.2 hab)
  · exact List.pairwise_map.2 (archive.files.ascending.imp fun hab => Text.bytes_lt_iff.2 hab)
  · intro front entry back hsplit directory hmem hnone hne hprefix
    rw [hsplit] at hmem
    refine (List.mem_append.1 hmem).resolve_right fun hback => ?_
    have hback := (List.mem_cons.1 hback).resolve_left hne
    -- Behind the entry, a directory has a greater name than the entry.
    have hpairwise := archive.entries_pairwise
    rw [hsplit] at hpairwise
    have hcons := (List.pairwise_append.1 hpairwise).2.1
    obtain ⟨hentry, hlt⟩ := (List.pairwise_cons.1 hcons).1 directory hback hnone
    have hname : directory.name ≠ entry.name := fun hname => String.lt_irrefl _ (hname ▸ hlt)
    exact String.lt_asymm hlt (lt_of_startsWith hprefix hname)

end Order

/-! ### Entries of a generated archive -/

section Generated

variable {σ : Type} [AttachmentStore σ] {store : σ} {moduleBase : String} {g : Graph}
  {paths : PathMap}

theorem mem_keys_directories_ofPlan (h : resolvePaths g.nodes = .ok paths) {name : String} :
    name ∈ (ofPlan store moduleBase g paths).directories.keys ↔
      ∃ path ∈ paths.values, name = path ++ "/" := by
  rw [ofPlan, SortedMap.mem_keys_ofList, List.map_map, ← mem_directoryNames_iff h]
  simp

theorem find?_files_ofPlan (h : IsGenerable store moduleBase g paths) {name : String}
    {contents : ByteArray} :
    (ofPlan store moduleBase g paths).files.find? name = some contents ↔
      ∃ file ∈ bootstrapFile :: plannedFiles store moduleBase g paths,
        file.path = name ∧ file.contents = contents := by
  have hnodup := h.nodup
  have hkeys : (((bootstrapFile :: plannedFiles store moduleBase g paths).map (·.entry)).map
      (·.1)).Nodup := by
    rw [List.map_map]
    exact hnodup
  rw [ofPlan, SortedMap.find?_map, Option.map_eq_some_iff]
  constructor
  · rintro ⟨owned, hfind, rfl⟩
    rw [SortedMap.find?_insertAll hkeys (by simp [SortedMap.keys])] at hfind
    obtain ⟨file, hfile, hentry⟩ := List.mem_map.1 (hfind.resolve_left (by simp))
    obtain ⟨rfl, rfl⟩ := Prod.mk.inj hentry
    exact ⟨file, hfile, rfl, rfl⟩
  · rintro ⟨file, hfile, rfl, rfl⟩
    refine ⟨file.entry.2, ?_, rfl⟩
    rw [SortedMap.find?_insertAll hkeys (by simp [SortedMap.keys])]
    exact .inr (List.mem_map.2 ⟨file, hfile, rfl⟩)

theorem mem_entries_ofPlan_none_iff (h : resolvePaths g.nodes = .ok paths) {name : String} :
    ⟨name, none⟩ ∈ (ofPlan store moduleBase g paths).entries ↔
      ∃ path ∈ paths.values, name = path ++ "/" :=
  mem_entries_none_iff.trans (mem_keys_directories_ofPlan h)

theorem mem_entries_ofPlan_some_iff (h : IsGenerable store moduleBase g paths) {name : String}
    {contents : ByteArray} :
    ⟨name, some contents⟩ ∈ (ofPlan store moduleBase g paths).entries ↔
      ∃ file ∈ bootstrapFile :: plannedFiles store moduleBase g paths,
        file.path = name ∧ file.contents = contents :=
  mem_entries_some_iff.trans (find?_files_ofPlan h)

/-- An entry is the directory of a node, the file at the top, or a file in the directory of its
node. -/
theorem cases_of_mem_entries (h : IsGenerable store moduleBase g paths) {entry : ArchiveEntry}
    (hentry : entry ∈ (ofPlan store moduleBase g paths).entries) :
    (∃ path ∈ paths.values, entry = ⟨path ++ "/", none⟩) ∨
      entry = ⟨NodeType.defaultFileName, some bootstrapFile.contents⟩ ∨
        ∃ placed ∈ placedNodes g paths.toList, ∃ name ∈ placed.1.fileNames, ∃ contents,
          entry = ⟨placed.2 ++ "/" ++ name, some contents⟩ := by
  obtain ⟨name, contents⟩ := entry
  cases contents with
  | none =>
      obtain ⟨path, hpath, rfl⟩ := (mem_entries_ofPlan_none_iff h.resolved).1 hentry
      exact .inl ⟨path, hpath, rfl⟩
  | some contents =>
      obtain ⟨file, hfile, rfl, rfl⟩ := (mem_entries_ofPlan_some_iff h).1 hentry
      rcases List.mem_cons.1 hfile with rfl | hfile
      · exact .inr (.inl rfl)
      · obtain ⟨placed, hplaced, name, hname, hpath⟩ := exists_name_of_mem_plannedFiles hfile
        exact .inr (.inr ⟨placed, hplaced, name, hname, _, by rw [hpath]⟩)

theorem mem_plannedConfigs_iff {placed : Node × String} {name : String} {contents : ByteArray}
    (h : placed.1.type.hasOutput = true → DependenciesResolve g.edges paths placed.1.id) :
    (∃ file ∈ plannedConfigs g moduleBase paths placed,
        file.path = name ∧ file.contents = contents) ↔
      IsConfigEntry moduleBase g paths placed.1 placed.2 name contents := by
  unfold plannedConfigs IsConfigEntry
  by_cases houtput : placed.1.type.hasOutput = true
  · have hactive : resolveDependencies placed.1.id placed.2 (g.outgoing placed.1.id) paths =
        .ok (dependenciesOf g.edges paths placed.1.id placed.2) := by
      rw [resolveDependencies_outgoing]
      exact resolveDependencies_eq_ok_iff.2 ⟨h houtput, rfl⟩
    simp only [houtput, if_true, List.mem_singleton, exists_eq_left, true_and, hactive,
      Except.ok.injEq, exists_eq_left']
    exact and_congr eq_comm eq_comm
  · simp [houtput]

theorem mem_plannedAttachments_iff {placed : Node × String} {name : String} {contents : ByteArray}
    (h : ∀ file ∈ placed.1.files, ∃ contents, storedContents? store file.fileId = some contents) :
    (∃ pending ∈ pendingFiles placed, (plannedAttachment store pending).path = name ∧
        (plannedAttachment store pending).contents = contents) ↔
      IsAttachedEntry store placed.1 placed.2 name contents := by
  simp only [pendingFiles, List.mem_map, exists_exists_and_eq_and, plannedAttachment,
    IsAttachedEntry]
  refine exists_congr fun file => and_congr_right fun hfile => ?_
  obtain ⟨stored, hstored⟩ := h file hfile
  rw [hstored, ← storedContents?_eq_some_iff, hstored]
  simp [eq_comm]

theorem exists_of_mem_plannedFiles {file : PlannedFile}
    (h : file ∈ bootstrapFile :: plannedFiles store moduleBase g paths)
    (hvalid : ∀ placed ∈ placedNodes g paths.toList, ∀ file ∈ placed.1.files,
      Attachment.isValidName file.fileName = true) :
    ∃ front name, Path.IsPlain name ∧ Path.split file.path = front ++ [name] := by
  rcases List.mem_cons.1 h with rfl | h
  · have hplain : Path.IsPlain NodeType.defaultFileName :=
      NodeType.isPlain_outputFileName .root
    exact ⟨[], _, hplain, hplain.split⟩
  · obtain ⟨placed, hplaced, name, hname, hpath⟩ := exists_name_of_mem_plannedFiles h
    have hplain := Node.isPlain_fileNames (hvalid placed hplaced) name hname
    exact ⟨_, name, hplain, by rw [hpath, Path.split_append_slash, hplain.split]⟩

theorem isOrdered_ofPlan (h : IsGenerable store moduleBase g paths) :
    (ofPlan store moduleBase g paths).IsOrdered := by
  refine isOrdered_of_slashes (fun name hname => ?_) fun name hname path hpath => ?_
  · obtain ⟨path, _, rfl⟩ := (mem_keys_directories_ofPlan h.resolved).1 hname
    exact ⟨path, rfl⟩
  · obtain ⟨contents, hfind⟩ := SortedMap.mem_keys_iff.1 hname
    obtain ⟨file, hfile, rfl, _⟩ := (find?_files_ofPlan h).1 hfind
    obtain ⟨front, last, hplain, hsplit⟩ := exists_of_mem_plannedFiles hfile h.valid
    have hempty : Path.split (path ++ "/") = Path.split path ++ [""] := by
      have hslash := Path.split_append_slash path ""
      rw [String.append_empty] at hslash
      have hend : Path.split "" = [""] := Path.split_of_not_mem (by simp)
      rw [hslash, hend]
    rw [hpath, hempty] at hsplit
    exact hplain.ne_empty (List.singleton_inj.1 (List.append_inj' hsplit rfl).2).symm

theorem holdsExactly_ofPlan (hids : DistinctIds g.nodes)
    (h : IsGenerable store moduleBase g paths) :
    HoldsExactly store moduleBase g paths (ofPlan store moduleBase g paths) := by
  have hplaced : ∀ node path, IsPlaced g.nodes node path ↔
      (node, path) ∈ placedNodes g paths.toList := fun node path =>
    (mem_placedNodes_iff_isPlaced hids h.resolved).symm
  refine ⟨fun name contents => ?_, fun name => ?_, fun node path hnode => ?_,
    fun node node' path hnode hnode' => ?_⟩
  · rw [mem_entries_ofPlan_some_iff h, List.exists_mem_cons_iff]
    refine or_congr ?_ ?_
    · exact and_congr eq_comm eq_comm
    · simp only [mem_plannedFiles_iff, hplaced]
      constructor
      · rintro ⟨file, ⟨⟨node, path⟩, hmem, hfile⟩, hname, hcontents⟩
        refine ⟨node, path, hmem, ?_⟩
        rcases hfile with hfile | ⟨pending, hpending, rfl⟩
        · exact .inl ((mem_plannedConfigs_iff (h.dependencies _ hmem)).1
            ⟨file, hfile, hname, hcontents⟩)
        · exact .inr ((mem_plannedAttachments_iff (h.stored _ hmem)).1
            ⟨pending, hpending, hname, hcontents⟩)
      · rintro ⟨node, path, hmem, hentry | hentry⟩
        · obtain ⟨file, hfile, hname, hcontents⟩ :=
            (mem_plannedConfigs_iff (h.dependencies _ hmem)).2 hentry
          exact ⟨file, ⟨(node, path), hmem, .inl hfile⟩, hname, hcontents⟩
        · obtain ⟨pending, hpending, hname, hcontents⟩ :=
            (mem_plannedAttachments_iff (h.stored _ hmem)).2 hentry
          exact ⟨_, ⟨(node, path), hmem, .inr ⟨pending, hpending, rfl⟩⟩, hname, hcontents⟩
  · rw [mem_entries_ofPlan_none_iff h.resolved]
    constructor
    · rintro ⟨path, hpath, rfl⟩
      obtain ⟨node, hnode⟩ := (mem_values_iff_isPlaced hids h.resolved).1 hpath
      exact ⟨node, path, hnode, rfl⟩
    · rintro ⟨node, path, hnode, rfl⟩
      exact ⟨path, mem_values_of_mem_placedNodes ((hplaced node path).1 hnode), rfl⟩
  · exact (nodup_plannedFiles_iff h.distinct h.valid).1 h.nodup _ ((hplaced node path).1 hnode)
  · have hdistinct := (values_nodup_iff hids h.resolved).1 h.distinct
    exact hdistinct node node' path hnode hnode'

/-- Where ids are distinct, the archive of a graph holds exactly what the graph asks for, in an
order in which it can be unpacked. -/
theorem ofGraph_holdsExactly (hids : DistinctIds g.nodes) {archive : Archive}
    (h : ofGraph store moduleBase g = .ok archive) :
    ∃ paths, resolvePaths g.nodes = .ok paths ∧
      archive.HoldsExactly store moduleBase g paths ∧ archive.IsOrdered := by
  obtain ⟨paths, hgenerable, rfl⟩ := ofGraph_eq_ok_iff.1 h
  exact ⟨paths, hgenerable.resolved, holdsExactly_ofPlan hids hgenerable,
    isOrdered_ofPlan hgenerable⟩

end Generated

end Archive

/-- The archive of the two modules has their configuration files and the attached file. -/
theorem TwoModules.archive_holdsExactly :
    DistinctIds graph.nodes ∧
      ∃ archive, Archive.ofGraph store ModuleSource.defaultBase graph = .ok archive ∧
        ∃ paths, resolvePaths graph.nodes = .ok paths ∧
          archive.HoldsExactly store ModuleSource.defaultBase graph paths ∧ archive.IsOrdered := by
  obtain ⟨archive, harchive⟩ := exists_archive ModuleSource.defaultBase
  exact ⟨distinctIds, archive, harchive, Archive.ofGraph_holdsExactly distinctIds harchive⟩

end InfraGraph
