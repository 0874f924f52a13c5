import InfraGraph.Proofs.Archive.Unpack

/-!
# The tree of a graph

Unpacked, the archive of a graph is a tree whose folders are the directories of the nodes.  In the
folder of a node are its configuration file, if its type has one, and what is attached to it.
-/

namespace InfraGraph

theorem LiesAt.ne_nil {nodes : List Node} {node : Node} {parts : List String}
    (h : LiesAt nodes node parts) (hroot : node.type ≠ .root) : parts ≠ [] := by
  obtain ⟨above, _, rfl⟩ := h
  exact directoryParts_ne_nil hroot

theorem LiesAt.isPlain {nodes : List Node} {paths : PathMap} {node : Node} {parts : List String}
    (hlies : LiesAt nodes node parts) (h : resolvePaths nodes = .ok paths) :
    ∀ part ∈ parts, Path.IsPlain part := by
  obtain ⟨above, hlineage, rfl⟩ := hlies
  exact isPlain_of_resolvePaths h hlineage

/-- Whatever is generated for a graph has a path that fits, below a directory. -/
structure Graph.FitsBelow (here : List String) (g : Graph) : Prop where
  bootstrap : FileSystem.Fits (here ++ [NodeType.defaultFileName])
  directories : ∀ node parts, node.type ≠ .root → LiesAt g.nodes node parts →
    FileSystem.Fits (here ++ parts)
  files : ∀ node parts, node.type ≠ .root → LiesAt g.nodes node parts →
    ∀ name ∈ node.fileNames, FileSystem.Fits (here ++ (parts ++ [name]))

namespace Archive

/-! ### Entries and paths -/

section Made

variable {entries : List ArchiveEntry} {t : FileTree} {path : List String}

theorem IsMadeOf.isPlain (h : IsMadeOf entries t) (hnamed : ∀ entry ∈ entries, entry.IsNamed)
    {kind : FileTree.Kind} (hkind : t.kindAt path = some kind) :
    ∀ name ∈ path, Path.IsPlain name := by
  rcases (h path kind).1 hkind with ⟨rfl, _⟩ | ⟨entry, hentry, rfl, _⟩
  · simp
  · exact (hnamed entry hentry).plain

theorem IsMadeOf.kindAt_eq_file_iff (h : IsMadeOf entries t)
    (hnamed : ∀ entry ∈ entries, entry.IsNamed) (hplain : ∀ name ∈ path, Path.IsPlain name)
    {contents : ByteArray} :
    t.kindAt path = some (.file contents) ↔ ⟨Path.unsplit path, some contents⟩ ∈ entries := by
  rw [h path]
  constructor
  · intro hpath
    rcases hpath with ⟨_, hkind⟩ | ⟨entry, hentry, rfl, hkind⟩
    · cases hkind
    · have hname := (hnamed entry hentry).name
      obtain ⟨name, stored⟩ := entry
      cases stored with
      | none => cases hkind
      | some stored =>
          obtain rfl : stored = contents := FileTree.Kind.file.inj hkind
          rw [if_neg (by simp), String.append_empty] at hname
          rw [← hname]
          exact hentry
  · intro hentry
    exact .inr ⟨_, hentry, ArchiveEntry.parts_file hplain contents, rfl⟩

theorem IsMadeOf.kindAt_eq_folder_iff (h : IsMadeOf entries t)
    (hnamed : ∀ entry ∈ entries, entry.IsNamed) (hplain : ∀ name ∈ path, Path.IsPlain name) :
    t.kindAt path = some .folder ↔ path = [] ∨ ⟨Path.unsplit path ++ "/", none⟩ ∈ entries := by
  rw [h path]
  constructor
  · intro hpath
    rcases hpath with ⟨hnil, _⟩ | ⟨entry, hentry, rfl, hkind⟩
    · exact .inl hnil
    · right
      have hname := (hnamed entry hentry).name
      obtain ⟨name, stored⟩ := entry
      cases stored with
      | none =>
          rw [if_pos rfl] at hname
          rw [← hname]
          exact hentry
      | some stored => cases hkind
  · intro hpath
    rcases hpath with hnil | hentry
    · exact .inl ⟨hnil, rfl⟩
    · exact .inr ⟨_, hentry, ArchiveEntry.parts_directory hplain, rfl⟩

end Made

/-! ### Nodes and paths -/

section Nodes

variable {σ : Type} [AttachmentStore σ] {store : σ} {moduleBase : String} {g : Graph}
  {paths : PathMap}

/-- The configuration file that the node at some parts gets. -/
def configOf (moduleBase : String) (g : Graph) (paths : PathMap) (node : Node)
    (parts : List String) : ConfigFile :=
  configFile moduleBase node (dependenciesOf g.edges paths node.id (Path.unsplit parts))

/-- The file is the configuration file of the node at some parts, or attached to it. -/
def OwnsFile (store : σ) (moduleBase : String) (g : Graph) (paths : PathMap) (node : Node)
    (parts : List String) (name : String) (contents : ByteArray) : Prop :=
  (node.type.hasOutput = true ∧ name = node.type.outputFileName ∧
      contents = (configOf moduleBase g paths node parts).text.toUTF8) ∨
    ∃ file ∈ node.files, file.fileName = name ∧
      storedContents? store file.fileId = some contents

/-- A tree with the directories and files of a graph, and nothing else. -/
structure IsTreeOf (store : σ) (moduleBase : String) (g : Graph) (paths : PathMap)
    (t : FileTree) : Prop where
  wellFormed : t.WellFormed
  folder : ∀ parts, t.kindAt parts = some .folder ↔
    parts = [] ∨ ∃ node, node.type ≠ .root ∧ LiesAt g.nodes node parts
  bootstrap : t.kindAt [NodeType.defaultFileName] = some (.file bootstrapFile.contents)
  file : ∀ node parts, node.type ≠ .root → LiesAt g.nodes node parts → ∀ name contents,
    t.kindAt (parts ++ [name]) = some (.file contents) ↔
      OwnsFile store moduleBase g paths node parts name contents

/-- The fixed file is found in a folder with the tree of a graph. -/
theorem IsTreeOf.isFile_bootstrap {t : FileTree} (htree : IsTreeOf store moduleBase g paths t)
    {fs : FileSystem} {here : List String} (hhere : ∀ name ∈ here, Path.IsPlain name)
    (hfits : FileSystem.Fits (here ++ [NodeType.defaultFileName]))
    (hfind : fs.root.find? here = some t) :
    fs.isFile (Path.join (Path.absolute here) NodeType.defaultFileName) = true := by
  have hdefault := NodeType.isPlain_defaultFileName
  have hjoin := Path.join_absolute_unsplit hhere (by simp) hdefault
  rw [Path.unsplit_singleton] at hjoin
  have hkind := htree.bootstrap
  rw [FileTree.kindAt, Option.map_eq_some_iff] at hkind
  obtain ⟨node, hnode, hfile⟩ := hkind
  have hfound : fs.root.find? (here ++ [NodeType.defaultFileName]) = some node := by
    rw [FileTree.find?_append, hfind]
    exact hnode
  rw [hjoin]
  cases node with
  | file contents =>
      refine FileSystem.isFile_absolute ?_ hfits hfound
      exact List.forall_mem_append.2 ⟨hhere, hdefault⟩
  | link target => cases hfile
  | folder inner => cases hfile

theorem OwnsFile.isPlain {node : Node} {parts : List String} {name : String}
    {contents : ByteArray} (h : OwnsFile store moduleBase g paths node parts name contents)
    (hvalid : ∀ file ∈ node.files, Attachment.isValidName file.fileName = true) :
    Path.IsPlain name := by
  rcases h with ⟨_, rfl, _⟩ | ⟨file, hfile, rfl, _⟩
  · exact node.type.isPlain_outputFileName
  · exact Attachment.isPlain_of_isValidName (hvalid file hfile)

/-- The planned files of a node are those that it owns. -/
theorem exists_planned_iff {node : Node} {parts : List String} {name : String}
    {contents : ByteArray}
    (hstored : ∀ file ∈ node.files, ∃ contents, storedContents? store file.fileId = some contents) :
    (∃ file : PlannedFile,
      (file ∈ plannedConfigs g moduleBase paths (node, Path.unsplit parts) ∨
        ∃ pending ∈ pendingFiles (node, Path.unsplit parts),
          file = plannedAttachment store pending) ∧
        file.path = Path.unsplit parts ++ "/" ++ name ∧ file.contents = contents) ↔
      OwnsFile store moduleBase g paths node parts name contents := by
  have hname : ∀ name', Path.unsplit parts ++ "/" ++ name' = Path.unsplit parts ++ "/" ++ name ↔
      name' = name := by
    intro name'
    rw [← String.toList_inj, ← String.toList_inj]
    simp
  constructor
  · intro ⟨file, hfile, hpath, hcontents⟩
    rcases hfile with hconfig | ⟨pending, hpending, rfl⟩
    · left
      unfold plannedConfigs at hconfig
      split at hconfig
      · rename_i houtput
        obtain rfl := List.mem_singleton.1 hconfig
        exact ⟨houtput, ((hname _).1 hpath).symm, hcontents.symm⟩
      · cases hconfig
    · right
      obtain ⟨file, hfile, rfl⟩ := List.mem_map.1 hpending
      obtain ⟨stored, hfound⟩ := hstored file hfile
      refine ⟨file, hfile, (hname _).1 hpath, ?_⟩
      rw [hfound, ← hcontents, plannedAttachment, hfound, Option.getD_some]
  · intro howns
    rcases howns with ⟨houtput, rfl, rfl⟩ | ⟨file, hfile, rfl, hfound⟩
    · refine ⟨⟨_, node.id, _⟩, .inl ?_, rfl, rfl⟩
      unfold plannedConfigs
      rw [if_pos houtput]
      exact List.mem_singleton.2 rfl
    · refine ⟨_, .inr ⟨_, List.mem_map.2 ⟨file, hfile, rfl⟩, rfl⟩, rfl, ?_⟩
      rw [plannedAttachment, hfound, Option.getD_some]

theorem mem_entries_iff_ownsFile (hids : DistinctIds g.nodes)
    (h : IsGenerable store moduleBase g paths) {node : Node} {parts : List String}
    (hroot : node.type ≠ .root) (hlies : LiesAt g.nodes node parts) {name : String}
    (hplain : Path.IsPlain name) {contents : ByteArray} :
    ⟨Path.unsplit (parts ++ [name]), some contents⟩ ∈ (ofPlan store moduleBase g paths).entries ↔
      OwnsFile store moduleBase g paths node parts name contents := by
  have hplaced : IsPlaced g.nodes node (Path.unsplit parts) := ⟨hroot, parts, hlies, rfl⟩
  have hmem := (mem_placedNodes_iff_isPlaced hids h.resolved).2 hplaced
  rw [mem_entries_ofPlan_some_iff h, Path.unsplit_concat (hlies.ne_nil hroot),
    ← exists_planned_iff (h.stored _ hmem)]
  constructor
  · intro ⟨file, hfile, hpath, hcontents⟩
    rcases List.mem_cons.1 hfile with rfl | hfile
    · exact absurd hpath.symm (append_slash_ne_defaultFileName _ _)
    · obtain ⟨placed, hplaced', hplanned⟩ := mem_plannedFiles_iff.1 hfile
      -- The file lies in the directory of its node, and no other node has that one.
      have hsame : placed = (node, Path.unsplit parts) := by
        obtain ⟨node', path'⟩ := placed
        have hnode' := (mem_placedNodes_iff_isPlaced hids h.resolved).1 hplaced'
        have hpath' : path' = Path.unsplit parts := by
          rcases hplanned with hconfig | ⟨pending, hpending, rfl⟩
          · unfold plannedConfigs at hconfig
            split at hconfig
            · obtain rfl := List.mem_singleton.1 hconfig
              exact (append_slash_inj node'.type.isPlain_outputFileName hplain hpath).1
            · cases hconfig
          · obtain ⟨attached, hattached, rfl⟩ := List.mem_map.1 hpending
            have hvalid := Attachment.isPlain_of_isValidName (h.valid _ hplaced' attached hattached)
            exact (append_slash_inj hvalid hplain hpath).1
        subst hpath'
        rw [(holdsExactly_ofPlan hids h).eq_of_path_eq node' node _ hnode' hplaced]
      rw [hsame] at hplanned
      exact ⟨file, hplanned, hpath, hcontents⟩
  · intro ⟨file, hplanned, hpath, hcontents⟩
    exact ⟨file, List.mem_cons_of_mem _ (mem_plannedFiles_iff.2 ⟨_, hmem, hplanned⟩), hpath,
      hcontents⟩

theorem exists_ownsFile (h : IsGenerable store moduleBase g paths) {node : Node}
    {parts : List String} (hmem : (node, Path.unsplit parts) ∈ placedNodes g paths.toList)
    {name : String} (hname : name ∈ node.fileNames) :
    ∃ contents, OwnsFile store moduleBase g paths node parts name contents := by
  rcases Node.mem_fileNames.1 hname with ⟨houtput, houtputName⟩ | ⟨file, hfile, hfileName⟩
  · exact ⟨_, .inl ⟨houtput, houtputName, rfl⟩⟩
  · obtain ⟨contents, hstored⟩ := h.stored _ hmem file hfile
    exact ⟨contents, .inr ⟨file, hfile, hfileName, hstored⟩⟩

/-- The entries of an archive fit below a directory exactly when the graph does. -/
theorem forall_fits_entries_iff (hids : DistinctIds g.nodes)
    (h : IsGenerable store moduleBase g paths) {here : List String} :
    (∀ entry ∈ (ofPlan store moduleBase g paths).entries, FileSystem.Fits (here ++ entry.parts)) ↔
      g.FitsBelow here := by
  have hdefault := NodeType.isPlain_defaultFileName
  constructor
  · intro hfits
    refine ⟨?_, fun node parts hroot hlies => ?_, fun node parts hroot hlies name hname => ?_⟩
    · have hfit := hfits _ (bootstrapFile_mem_entries h)
      rwa [ArchiveEntry.parts_file hdefault] at hfit
    · have hentry : ⟨Path.unsplit parts ++ "/", none⟩ ∈
          (ofPlan store moduleBase g paths).entries := by
        rw [mem_entries_ofPlan_none_iff h.resolved]
        exact ⟨_, (mem_values_iff_isPlaced hids h.resolved).2 ⟨node, hroot, parts, hlies, rfl⟩, rfl⟩
      have hfit := hfits _ hentry
      rwa [ArchiveEntry.parts_directory (hlies.isPlain h.resolved)] at hfit
    · have hmem := (mem_placedNodes_iff_isPlaced hids h.resolved).2 ⟨hroot, parts, hlies, rfl⟩
      have hname' := Node.isPlain_fileNames (h.valid _ hmem) name hname
      have hplain := Path.forall_isPlain_concat.2 ⟨hlies.isPlain h.resolved, hname'⟩
      obtain ⟨contents, howns⟩ := exists_ownsFile h hmem hname
      have hfit := hfits _ ((mem_entries_iff_ownsFile hids h hroot hlies hname').2 howns)
      rwa [ArchiveEntry.parts_file hplain] at hfit
  · intro hfits entry hentry
    rcases cases_of_mem_entries h hentry with
      ⟨path, hpath, rfl⟩ | rfl | ⟨⟨node, path⟩, hplaced, name, hname, contents, rfl⟩
    · obtain ⟨node, hroot, parts, hlies, rfl⟩ := (mem_values_iff_isPlaced hids h.resolved).1 hpath
      rw [ArchiveEntry.parts_directory (hlies.isPlain h.resolved)]
      exact hfits.directories node parts hroot hlies
    · have hfit := hfits.bootstrap
      rwa [← ArchiveEntry.parts_file hdefault bootstrapFile.contents] at hfit
    · obtain ⟨hroot, parts, hlies, rfl⟩ :=
        (mem_placedNodes_iff_isPlaced hids h.resolved).1 hplaced
      have hplain := Path.forall_isPlain_concat.2
        ⟨hlies.isPlain h.resolved, Node.isPlain_fileNames (h.valid _ hplaced) name hname⟩
      rw [← Path.unsplit_concat (hlies.ne_nil hroot), ArchiveEntry.parts_file hplain]
      exact hfits.files node parts hroot hlies name hname

/-- What is made of the archive of a graph is the tree of the graph. -/
theorem isTreeOf_of_isMadeOf (hids : DistinctIds g.nodes)
    (h : IsGenerable store moduleBase g paths) {t : FileTree} (hwell : t.WellFormed)
    (hmade : IsMadeOf (ofPlan store moduleBase g paths).entries t) :
    IsTreeOf store moduleBase g paths t := by
  have hnamed : ∀ entry ∈ (ofPlan store moduleBase g paths).entries, entry.IsNamed :=
    fun entry hentry => (exists_parts_of_mem_entries h hentry).1
  have hdirectory : ∀ parts : List String,
      ⟨Path.unsplit parts ++ "/", none⟩ ∈ (ofPlan store moduleBase g paths).entries ↔
        ∃ node, IsPlaced g.nodes node (Path.unsplit parts) := by
    intro parts
    rw [mem_entries_ofPlan_none_iff h.resolved,
      ← mem_values_iff_isPlaced hids h.resolved]
    constructor
    · intro ⟨path, hpath, hsame⟩
      rw [← String.toList_inj, String.toList_append, String.toList_append] at hsame
      rwa [String.toList_inj.1 (List.append_cancel_right hsame)]
    · intro hpath
      exact ⟨_, hpath, rfl⟩
  refine ⟨hwell, fun parts => ?_, ?_, fun node parts hroot hlies name contents => ?_⟩
  · constructor
    · intro hkind
      have hplain := hmade.isPlain hnamed hkind
      rw [hmade.kindAt_eq_folder_iff hnamed hplain, hdirectory] at hkind
      rcases hkind with hnil | ⟨node, hroot, parts', hlies, hpath⟩
      · exact .inl hnil
      · right
        rw [Path.unsplit_inj hplain (hlies.isPlain h.resolved) hpath]
        exact ⟨node, hroot, hlies⟩
    · intro hparts
      rcases hparts with rfl | ⟨node, hroot, hlies⟩
      · exact (hmade [] .folder).2 (.inl ⟨rfl, rfl⟩)
      · rw [hmade.kindAt_eq_folder_iff hnamed (hlies.isPlain h.resolved), hdirectory]
        exact .inr ⟨node, hroot, parts, hlies, rfl⟩
  · rw [hmade.kindAt_eq_file_iff hnamed NodeType.isPlain_defaultFileName]
    exact bootstrapFile_mem_entries h
  · have hparts := hlies.isPlain h.resolved
    constructor
    · intro hkind
      have hplain := hmade.isPlain hnamed hkind
      have hname := hplain name (by simp)
      rw [hmade.kindAt_eq_file_iff hnamed hplain] at hkind
      exact (mem_entries_iff_ownsFile hids h hroot hlies hname).1 hkind
    · intro howns
      have hmem := (mem_placedNodes_iff_isPlaced hids h.resolved).2 ⟨hroot, parts, hlies, rfl⟩
      have hname := howns.isPlain (h.valid _ hmem)
      rw [hmade.kindAt_eq_file_iff hnamed (Path.forall_isPlain_concat.2 ⟨hparts, hname⟩)]
      exact (mem_entries_iff_ownsFile hids h hroot hlies hname).2 howns

end Nodes

end Archive

end InfraGraph
