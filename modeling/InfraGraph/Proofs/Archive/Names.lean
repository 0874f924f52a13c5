import InfraGraph.Proofs.Archive.Plan
import InfraGraph.Proofs.Graph.Closure

/-!
# Names in an archive

Every file of a node lies directly in the directory of the node, and every directory is that of a
node.  So whether two names get in each other's way is decided inside one directory: by the names of
the files in it and of the directories directly inside.
-/

namespace InfraGraph

/-! ### Names of files -/

theorem NodeType.isPlain_outputFileName (t : NodeType) : Path.IsPlain t.outputFileName := by
  cases t <;>
    exact ⟨by simp [outputFileName, defaultFileName], by simp [outputFileName, defaultFileName],
      by simp [outputFileName, defaultFileName], by simp [outputFileName, defaultFileName]⟩

theorem NodeType.isPlain_defaultFileName : ∀ name ∈ [defaultFileName], Path.IsPlain name := by
  rw [List.forall_mem_singleton]
  exact isPlain_outputFileName .root

theorem Attachment.isPlain_of_isValidName {name : String} (h : isValidName name = true) :
    Path.IsPlain name := by
  simp only [isValidName, Bool.and_eq_true, decide_eq_true_eq, List.all_eq_true] at h
  obtain ⟨⟨⟨hempty, hdot⟩, hdotDot⟩, hchars⟩ := h
  exact ⟨hempty, hdot, hdotDot, fun hslash => (hchars '/' hslash).1.1 rfl⟩

/-- The names of the files of a node: its configuration file first, then what is attached. -/
def Node.fileNames (node : Node) : List String :=
  (if node.type.hasOutput then [node.type.outputFileName] else []) ++ node.files.map (·.fileName)

theorem Node.mem_fileNames {node : Node} {name : String} :
    name ∈ node.fileNames ↔
      (node.type.hasOutput = true ∧ name = node.type.outputFileName) ∨
        ∃ file ∈ node.files, file.fileName = name := by
  rw [fileNames, List.mem_append, List.mem_map]
  split <;> simp_all

theorem Node.isPlain_fileNames {node : Node}
    (h : ∀ file ∈ node.files, Attachment.isValidName file.fileName = true) :
    ∀ name ∈ node.fileNames, Path.IsPlain name := by
  intro name hname
  rcases mem_fileNames.1 hname with ⟨_, rfl⟩ | ⟨file, hfile, rfl⟩
  · exact node.type.isPlain_outputFileName
  · exact Attachment.isPlain_of_isValidName (h file hfile)

/-! ### Directories -/

section Directories

variable {nodes : List Node} {paths : PathMap}

theorem exists_parts_of_mem_values (h : resolvePaths nodes = .ok paths) {path : String}
    (hmem : path ∈ paths.values) :
    ∃ parts, parts ≠ [] ∧ (∀ part ∈ parts, Path.IsPlain part) ∧ path = Path.unsplit parts := by
  obtain ⟨id, hfind⟩ := SortedMap.mem_values_iff.1 hmem
  obtain ⟨node, above, hlineage, hroot, _, hpath⟩ := exists_lineage_of_find? h hfind
  exact ⟨_, directoryParts_ne_nil hroot, isPlain_of_resolvePaths h hlineage, hpath⟩

namespace Archive

/-- The directories that lead to a path of names are those of its fronts. -/
theorem mem_ancestors_unsplit {parts : List String} (hne : parts ≠ [])
    (hplain : ∀ part ∈ parts, Path.IsPlain part) {name : String} :
    name ∈ ancestors (Path.unsplit parts) ↔
      ∃ front, front ≠ [] ∧ front <+: parts ∧ name = Path.unsplit front ++ "/" := by
  simp only [ancestors, Path.split_unsplit_of_plain hne hplain, List.mem_map, List.mem_range]
  constructor
  · rintro ⟨i, hi, rfl⟩
    refine ⟨parts.take (i + 1), ?_, List.take_prefix _ _, rfl⟩
    intro hnil
    simp [hne] at hnil
  · rintro ⟨front, hfront, hprefix, rfl⟩
    have hlength : 0 < front.length := List.length_pos_iff.2 hfront
    refine ⟨front.length - 1, ?_, ?_⟩
    · have := hprefix.length_le
      omega
    · rw [Nat.sub_add_cancel hlength, ← List.prefix_iff_eq_take.1 hprefix]

/-- Every directory of an archive is that of a node. -/
theorem mem_directoryNames_iff (h : resolvePaths nodes = .ok paths) {name : String} :
    name ∈ directoryNames paths ↔ ∃ path ∈ paths.values, name = path ++ "/" := by
  rw [directoryNames, List.mem_flatMap]
  constructor
  · rintro ⟨path, hpath, hname⟩
    obtain ⟨parts, hne, hplain, rfl⟩ := exists_parts_of_mem_values h hpath
    obtain ⟨front, hfront, ⟨back, rfl⟩, rfl⟩ := (mem_ancestors_unsplit hne hplain).1 hname
    exact ⟨_, mem_values_of_append h hfront hplain hpath, rfl⟩
  · rintro ⟨path, hpath, rfl⟩
    obtain ⟨parts, hne, hplain, rfl⟩ := exists_parts_of_mem_values h hpath
    exact ⟨_, hpath, (mem_ancestors_unsplit hne hplain).2 ⟨parts, hne, List.prefix_rfl, rfl⟩⟩

end Archive

end Directories

/-! ### Placed nodes -/

/-- The node has a directory of its own: it isn't of type `root` and its parents lead to the top. -/
def IsPlaced (nodes : List Node) (node : Node) (path : String) : Prop :=
  node.type ≠ .root ∧ ∃ parts, LiesAt nodes node parts ∧ path = Path.unsplit parts

namespace Archive

section Placed

variable {g : Graph} {paths : PathMap}

theorem mem_placedNodes_iff {node : Node} {path : String} :
    (node, path) ∈ placedNodes g paths.toList ↔
      lastNode? g node.id = some node ∧ paths.find? node.id = some path := by
  simp only [placedNodes, List.mem_filterMap, Option.map_eq_some_iff, Prod.mk.injEq]
  constructor
  · rintro ⟨⟨id, path'⟩, hentry, node', hnode, rfl, rfl⟩
    have hid : node'.id = id := by simpa using List.find?_some hnode
    rw [hid]
    exact ⟨hnode, SortedMap.mem_toList_iff.1 hentry⟩
  · rintro ⟨hnode, hfind⟩
    exact ⟨(node.id, path), SortedMap.mem_toList_iff.2 hfind, node, hnode, rfl, rfl⟩

theorem mem_values_of_mem_placedNodes {placed : Node × String}
    (h : placed ∈ placedNodes g paths.toList) : placed.2 ∈ paths.values :=
  SortedMap.mem_values_iff.2 ⟨placed.1.id, (mem_placedNodes_iff.1 h).2⟩

theorem lastNode?_eq_some_iff (hids : DistinctIds g.nodes) {id : String} {node : Node} :
    lastNode? g id = some node ↔ node ∈ g.nodes ∧ node.id = id := by
  constructor
  · intro h
    exact ⟨List.mem_reverse.1 (List.mem_of_find?_eq_some h), by simpa using List.find?_some h⟩
  · rintro ⟨hmem, rfl⟩
    cases hfind : lastNode? g node.id with
    | none =>
        have := List.find?_eq_none.1 hfind node (List.mem_reverse.2 hmem)
        simp at this
    | some node' =>
        have hmem' : node' ∈ g.nodes := List.mem_reverse.1 (List.mem_of_find?_eq_some hfind)
        have hid : node'.id = node.id := by simpa using List.find?_some hfind
        rw [hids.eq_of_id_eq hmem' hmem hid]

/-- Where ids are distinct, the placed nodes are those whose parents lead to the top. -/
theorem mem_placedNodes_iff_isPlaced (hids : DistinctIds g.nodes)
    (h : resolvePaths g.nodes = .ok paths) {node : Node} {path : String} :
    (node, path) ∈ placedNodes g paths.toList ↔ IsPlaced g.nodes node path := by
  rw [mem_placedNodes_iff, lastNode?_eq_some_iff hids, find?_resolvePaths hids h]
  constructor
  · rintro ⟨⟨hmem, _⟩, node', parts, hroot, hid, hlies, hpath⟩
    obtain rfl := hids.eq_of_id_eq hlies.mem hmem hid
    exact ⟨hroot, parts, hlies, hpath⟩
  · rintro ⟨hroot, parts, hlies, hpath⟩
    exact ⟨⟨hlies.mem, rfl⟩, node, parts, hroot, rfl, hlies, hpath⟩

/-- Where ids are distinct, the directories are those of nodes whose parents lead to the top. -/
theorem mem_values_iff_isPlaced (hids : DistinctIds g.nodes) (h : resolvePaths g.nodes = .ok paths)
    {path : String} :
    path ∈ paths.values ↔ ∃ node, IsPlaced g.nodes node path := by
  rw [SortedMap.mem_values_iff]
  constructor
  · rintro ⟨id, hfind⟩
    obtain ⟨node, parts, hroot, _, hlies, hpath⟩ := (find?_resolvePaths hids h).1 hfind
    exact ⟨node, hroot, parts, hlies, hpath⟩
  · rintro ⟨node, hroot, parts, hlies, hpath⟩
    exact ⟨node.id, (find?_resolvePaths hids h).2 ⟨node, parts, hroot, rfl, hlies, hpath⟩⟩

end Placed

/-! ### Planned files -/

section Planned

variable {σ : Type} [AttachmentStore σ] {store : σ} {moduleBase : String} {g : Graph}
  {paths : PathMap}

theorem mem_plannedFiles_iff {file : PlannedFile} :
    file ∈ plannedFiles store moduleBase g paths ↔
      ∃ placed ∈ placedNodes g paths.toList,
        file ∈ plannedConfigs g moduleBase paths placed ∨
          ∃ pending ∈ pendingFiles placed, file = plannedAttachment store pending := by
  simp only [plannedFiles, List.mem_append, List.mem_flatMap, List.mem_map]
  constructor
  · rintro (⟨placed, hplaced, hfile⟩ | ⟨pending, ⟨placed, hplaced, hpending⟩, rfl⟩)
    · exact ⟨placed, hplaced, .inl hfile⟩
    · exact ⟨placed, hplaced, .inr ⟨pending, hpending, rfl⟩⟩
  · rintro ⟨placed, hplaced, hfile | ⟨pending, hpending, rfl⟩⟩
    · exact .inl ⟨placed, hplaced, hfile⟩
    · exact .inr ⟨pending, ⟨placed, hplaced, hpending⟩, rfl⟩

/-- The planned files of a node lie in its directory, under the names of its files. -/
theorem plannedFiles_paths_perm :
    ((plannedFiles store moduleBase g paths).map (·.path)).Perm
      ((placedNodes g paths.toList).flatMap fun placed =>
        placed.1.fileNames.map fun name => placed.2 ++ "/" ++ name) := by
  have hconfigs (placed : Node × String) :
      (plannedConfigs g moduleBase paths placed).map (·.path) =
        (if placed.1.type.hasOutput then [placed.1.type.outputFileName] else []).map
          fun name => placed.2 ++ "/" ++ name := by
    unfold plannedConfigs
    split <;> rfl
  have hattached (placed : Node × String) :
      ((pendingFiles placed).map (plannedAttachment store)).map (·.path) =
        (placed.1.files.map (·.fileName)).map fun name => placed.2 ++ "/" ++ name := by
    simp [pendingFiles, plannedAttachment]
  rw [plannedFiles, List.map_append, List.map_flatMap, List.map_flatMap, List.map_flatMap]
  simp only [hconfigs, hattached, Node.fileNames, List.map_append]
  exact List.flatMap_append_perm _ _ _

theorem exists_name_of_mem_plannedFiles {file : PlannedFile}
    (h : file ∈ plannedFiles store moduleBase g paths) :
    ∃ placed ∈ placedNodes g paths.toList, ∃ name ∈ placed.1.fileNames,
      file.path = placed.2 ++ "/" ++ name := by
  have hpath := plannedFiles_paths_perm.mem_iff.1 (List.mem_map.2 ⟨file, h, rfl⟩)
  obtain ⟨placed, hplaced, hname⟩ := List.mem_flatMap.1 hpath
  obtain ⟨name, hmem, hpath⟩ := List.mem_map.1 hname
  exact ⟨placed, hplaced, name, hmem, hpath.symm⟩

/-- Files keep clear of directories exactly when no name is that of a directory beside it. -/
theorem forall_path_not_mem_values_iff :
    (∀ file ∈ plannedFiles store moduleBase g paths, file.path ∉ paths.values) ↔
      ∀ placed ∈ placedNodes g paths.toList, ∀ name ∈ placed.1.fileNames,
        placed.2 ++ "/" ++ name ∉ paths.values := by
  constructor
  · intro h placed hplaced name hname
    have hmem : placed.2 ++ "/" ++ name ∈
        (plannedFiles store moduleBase g paths).map (·.path) :=
      plannedFiles_paths_perm.mem_iff.2
        (List.mem_flatMap.2 ⟨placed, hplaced, List.mem_map.2 ⟨name, hname, rfl⟩⟩)
    obtain ⟨file, hfile, hpath⟩ := List.mem_map.1 hmem
    rw [← hpath]
    exact h file hfile
  · intro h file hfile
    obtain ⟨placed, hplaced, name, hname, hpath⟩ := exists_name_of_mem_plannedFiles hfile
    rw [hpath]
    exact h placed hplaced name hname

/-- A name without slashes can be told from the path in front of it. -/
theorem append_slash_inj {a b x y : String} (hx : Path.IsPlain x) (hy : Path.IsPlain y)
    (h : a ++ "/" ++ x = b ++ "/" ++ y) : a = b ∧ x = y := by
  have hsplit := congrArg Path.split h
  rw [Path.split_append_slash, Path.split_append_slash, hx.split, hy.split] at hsplit
  obtain ⟨hfront, hname⟩ := List.append_inj' hsplit rfl
  refine ⟨?_, List.singleton_inj.1 hname⟩
  rw [← Path.unsplit_split a, hfront, Path.unsplit_split]

theorem append_slash_ne_defaultFileName (path name : String) :
    path ++ "/" ++ name ≠ NodeType.defaultFileName := by
  intro h
  have hmem : '/' ∈ NodeType.defaultFileName.toList := by
    rw [← h]
    simp
  simp [NodeType.defaultFileName] at hmem

/-- Where nodes have different directories, files can only be in each other's way inside one of
them. -/
theorem nodup_plannedFiles_iff (hdistinct : paths.values.Nodup)
    (hvalid : ∀ placed ∈ placedNodes g paths.toList, ∀ file ∈ placed.1.files,
      Attachment.isValidName file.fileName = true) :
    ((bootstrapFile :: plannedFiles store moduleBase g paths).map (·.path)).Nodup ↔
      ∀ placed ∈ placedNodes g paths.toList, placed.1.fileNames.Nodup := by
  have hplain : ∀ placed ∈ placedNodes g paths.toList, ∀ name ∈ placed.1.fileNames,
      Path.IsPlain name := fun placed hplaced => Node.isPlain_fileNames (hvalid placed hplaced)
  have hbootstrap : bootstrapFile.path ∉
      (plannedFiles store moduleBase g paths).map (·.path) := by
    intro hmem
    obtain ⟨file, hfile, hpath⟩ := List.mem_map.1 hmem
    obtain ⟨placed, _, name, _, hname⟩ := exists_name_of_mem_plannedFiles hfile
    exact append_slash_ne_defaultFileName placed.2 name (hname.symm.trans hpath)
  have hdirectories : (placedNodes g paths.toList).Pairwise fun a b => a.2 ≠ b.2 := by
    refine List.Pairwise.filterMap _ (fun a a' hne b hb b' hb' => ?_)
      (List.pairwise_map.1 hdistinct)
    obtain ⟨_, _, rfl⟩ := Option.map_eq_some_iff.1 hb
    obtain ⟨_, _, rfl⟩ := Option.map_eq_some_iff.1 hb'
    exact hne
  rw [List.map_cons, List.nodup_cons, plannedFiles_paths_perm.nodup_iff, List.nodup_flatMap]
  have hdisjoint : (placedNodes g paths.toList).Pairwise
      (Function.onFun List.Disjoint fun placed : Node × String =>
        placed.1.fileNames.map fun name => placed.2 ++ "/" ++ name) := by
    refine hdirectories.imp_of_mem fun {a b} ha hb hne path hmem hmem' => ?_
    obtain ⟨name, hname, rfl⟩ := List.mem_map.1 hmem
    obtain ⟨name', hname', hpath⟩ := List.mem_map.1 hmem'
    exact hne (append_slash_inj (hplain a ha name hname) (hplain b hb name' hname') hpath.symm).1
  simp only [hbootstrap, not_false_eq_true, hdisjoint, and_true, true_and]
  refine forall₂_congr fun placed _ => ?_
  refine List.nodup_map_iff fun x y hxy => ?_
  simpa using hxy

end Planned

end Archive

end InfraGraph
