import InfraGraph.Proofs.Archive.Contents
import InfraGraph.Proofs.Graph.Copy

/-!
# Graphs with the same archive

What an archive holds depends on the nodes that have directories and on what they say: their type
and label, their values, what is attached to them, and the names under which their edges lead to
which directories.  If the nodes of two graphs can be paired so that partners lie in the same
directory and say the same, neither ids nor orders nor anything else can make a difference.
-/

namespace InfraGraph

/-- What an edge says: the name of the target, and where it lies. -/
def Edge.reference (nodes : List Node) (edge : Edge) : Option String × Set String :=
  (edge.dependencyName, {path | ∃ target, IsPlaced nodes target path ∧ target.id = edge.target})

/-- The nodes of two graphs say the same, in whatever order. -/
structure Node.IsTwin (g h : Graph) (node twin : Node) : Prop where
  type : twin.type = node.type
  label : twin.label = node.label
  locals : twin.locals = node.locals
  inputs : twin.inputs = node.inputs
  files : twin.files.Perm node.files
  references : node.type.hasOutput = true →
    ((activeEdges h.edges twin.id).map (Edge.reference h.nodes)).Perm
      ((activeEdges g.edges node.id).map (Edge.reference g.nodes))

/-- The nodes of two graphs that have directories come in pairs. -/
structure Graph.IsTwin (R : Node → Node → Prop) (g h : Graph) : Prop where
  twin : ∀ {node twin}, R node twin → node.IsTwin g h twin
  forth : ∀ {node path}, IsPlaced g.nodes node path →
    ∃ twin, R node twin ∧ IsPlaced h.nodes twin path
  back : ∀ {twin path}, IsPlaced h.nodes twin path →
    ∃ node, R node twin ∧ IsPlaced g.nodes node path
  right_unique : ∀ {node twin twin'}, R node twin → R node twin' → twin = twin'
  left_unique : ∀ {node node' twin}, R node twin → R node' twin → node = node'
  levels : LevelsComplete g.nodes ↔ LevelsComplete h.nodes

theorem Node.IsTwin.symm {g h : Graph} {node twin : Node} (ht : node.IsTwin g h twin) :
    twin.IsTwin h g node := by
  refine ⟨ht.type.symm, ht.label.symm, ht.locals.symm, ht.inputs.symm, ht.files.symm,
    fun houtput => (ht.references ?_).symm⟩
  rwa [← ht.type]

theorem Graph.IsTwin.symm {R : Node → Node → Prop} {g h : Graph} (ht : g.IsTwin R h) :
    h.IsTwin (fun twin node => R node twin) g :=
  ⟨fun hr => (ht.twin hr).symm, ht.back, ht.forth, ht.left_unique, ht.right_unique, ht.levels.symm⟩

theorem Node.IsTwin.fileNames_perm {g h : Graph} {node twin : Node} (ht : node.IsTwin g h twin) :
    twin.fileNames.Perm node.fileNames := by
  rw [Node.fileNames, Node.fileNames, ht.type]
  exact (ht.files.map _).append_left _

/-! ### Success -/

section Success

variable {R : Node → Node → Prop} {g h : Graph}

theorem Node.IsTwin.exists_edge {node twin : Node} (ht : node.IsTwin g h twin)
    (houtput : node.type.hasOutput = true) {edge : Edge}
    (hedge : edge ∈ activeEdges h.edges twin.id) :
    ∃ edge' ∈ activeEdges g.edges node.id,
      edge'.reference g.nodes = edge.reference h.nodes :=
  List.mem_map.1 ((ht.references houtput).mem_iff.1 (List.mem_map.2 ⟨edge, hedge, rfl⟩))

theorem Node.IsTwin.names_perm {node twin : Node} (ht : node.IsTwin g h twin)
    (houtput : node.type.hasOutput = true) :
    ((activeEdges h.edges twin.id).map (·.dependencyName)).Perm
      ((activeEdges g.edges node.id).map (·.dependencyName)) := by
  have hnames := (ht.references houtput).map Prod.fst
  rwa [List.map_map, List.map_map] at hnames

/-- What generation asks of a graph holds for the other one as well. -/
theorem CanGenerate.of_isTwin {hasFile : String → Prop} (ht : g.IsTwin R h)
    (hg : CanGenerate hasFile g) : CanGenerate hasFile h := by
  refine ⟨fun twin path hplaced => ?_, fun twin twin' path hplaced hplaced' => ?_,
    ht.levels.1 hg.levels, fun twin path hplaced houtput => ?_,
    fun twin path hplaced file hfile => ?_, fun twin path hplaced => ?_⟩
  · obtain ⟨node, hr, hnode⟩ := ht.back hplaced
    rw [(ht.twin hr).label]
    exact hg.labels node path hnode
  · obtain ⟨node, hr, hnode⟩ := ht.back hplaced
    obtain ⟨node', hr', hnode'⟩ := ht.back hplaced'
    obtain rfl := hg.directories node node' path hnode hnode'
    exact ht.right_unique hr hr'
  · obtain ⟨node, hr, hnode⟩ := ht.back hplaced
    have htwin := ht.twin hr
    have houtput' : node.type.hasOutput = true := htwin.type ▸ houtput
    obtain ⟨hedges, hnames⟩ := hg.dependencies node path hnode houtput'
    refine ⟨fun edge hedge => ?_, (htwin.names_perm houtput').nodup_iff.2 hnames⟩
    obtain ⟨edge', hedge', href⟩ := htwin.exists_edge houtput' hedge
    have hname : edge'.dependencyName = edge.dependencyName := (Prod.mk.inj href).1
    obtain ⟨hnamed, target, path', htarget⟩ := hedges edge' hedge'
    have hmem : path' ∈ (edge'.reference g.nodes).2 := ⟨target, htarget⟩
    rw [href] at hmem
    obtain ⟨target', htarget'⟩ := hmem
    exact ⟨hname ▸ hnamed, target', path', htarget'⟩
  · obtain ⟨node, hr, hnode⟩ := ht.back hplaced
    exact hg.attachments node path hnode file ((ht.twin hr).files.mem_iff.1 hfile)
  · obtain ⟨node, hr, hnode⟩ := ht.back hplaced
    have hperm := (ht.twin hr).fileNames_perm
    obtain ⟨hnodup, hfree⟩ := hg.fileNames node path hnode
    refine ⟨hperm.nodup_iff.2 hnodup, fun name hname child path' hchild => ?_⟩
    obtain ⟨child', _, hchild'⟩ := ht.back hchild
    exact hfree name (hperm.mem_iff.1 hname) child' path' hchild'

end Success

/-! ### Dependencies -/

section Dependencies

variable {g h : Graph} {paths paths' : PathMap}

theorem Edge.mem_reference_iff (hids : DistinctIds g.nodes)
    (hpaths : resolvePaths g.nodes = .ok paths) {edge : Edge} {path : String} :
    path ∈ (edge.reference g.nodes).2 ↔ paths.find? edge.target = some path := by
  rw [find?_resolvePaths hids hpaths]
  constructor
  · rintro ⟨target, ⟨hroot, parts, hlies, hpath⟩, hid⟩
    exact ⟨target, parts, hroot, hid, hlies, hpath⟩
  · rintro ⟨target, parts, hroot, hid, hlies, hpath⟩
    exact ⟨target, ⟨hroot, parts, hlies, hpath⟩, hid⟩

/-- Edges that say the same lead to entries with the same path. -/
theorem Edge.find?_eq_of_reference_eq (hg : DistinctIds g.nodes) (hh : DistinctIds h.nodes)
    (hpaths : resolvePaths g.nodes = .ok paths) (hpaths' : resolvePaths h.nodes = .ok paths')
    {edge edge' : Edge} (href : edge.reference g.nodes = edge'.reference h.nodes) :
    paths.find? edge.target = paths'.find? edge'.target := by
  refine Option.ext fun path => ?_
  rw [← mem_reference_iff hg hpaths, ← mem_reference_iff hh hpaths', href]

theorem Edge.isResolvable_of_reference_eq (hg : DistinctIds g.nodes) (hh : DistinctIds h.nodes)
    (hpaths : resolvePaths g.nodes = .ok paths) (hpaths' : resolvePaths h.nodes = .ok paths')
    {edge edge' : Edge} (href : edge.reference g.nodes = edge'.reference h.nodes)
    (hedge : edge.IsResolvable paths) : edge'.IsResolvable paths' := by
  have hname : edge.dependencyName = edge'.dependencyName := (Prod.mk.inj href).1
  refine ⟨hname ▸ hedge.named, ?_⟩
  rw [← find?_eq_of_reference_eq hg hh hpaths hpaths' href]
  exact hedge.placed

theorem Edge.dependency_eq_of_reference_eq (hg : DistinctIds g.nodes) (hh : DistinctIds h.nodes)
    (hpaths : resolvePaths g.nodes = .ok paths) (hpaths' : resolvePaths h.nodes = .ok paths')
    {edge edge' : Edge} (href : edge.reference g.nodes = edge'.reference h.nodes)
    (nodePath : String) : edge.dependency nodePath paths = edge'.dependency nodePath paths' := by
  have hname : edge.dependencyName = edge'.dependencyName := (Prod.mk.inj href).1
  rw [dependency, dependency, hname, find?_eq_of_reference_eq hg hh hpaths hpaths' href]

/-- The dependencies of a node are those of its partner. -/
theorem Node.IsTwin.resolveDependencies {node twin : Node} (ht : node.IsTwin g h twin)
    (houtput : node.type.hasOutput = true) (hg : DistinctIds g.nodes) (hh : DistinctIds h.nodes)
    (hpaths : resolvePaths g.nodes = .ok paths) (hpaths' : resolvePaths h.nodes = .ok paths')
    {nodePath : String} {dependencies : SortedMap String}
    (hdeps : resolveDependencies node.id nodePath g.edges paths = .ok dependencies) :
    resolveDependencies twin.id nodePath h.edges paths' = .ok dependencies := by
  obtain ⟨hresolve, rfl⟩ := resolveDependencies_eq_ok_iff.1 hdeps
  obtain ⟨order, horder, hpairs⟩ := exists_perm_of_map_perm_map (ht.references houtput).symm
  have hsame : order.map (·.dependency nodePath paths) =
      (activeEdges h.edges twin.id).map (·.dependency nodePath paths') :=
    map_eq_map_of_forall₂ (hpairs.imp fun _ _ href =>
      Edge.dependency_eq_of_reference_eq hg hh hpaths hpaths' href nodePath)
  refine resolveDependencies_eq_ok_iff.2 ⟨⟨fun edge hedge => ?_,
    (ht.names_perm houtput).nodup_iff.2 hresolve.names_nodup⟩, ?_⟩
  · obtain ⟨edge', hedge', href⟩ := ht.exists_edge houtput hedge
    exact Edge.isResolvable_of_reference_eq hg hh hpaths hpaths' href
      (hresolve.resolvable edge' hedge')
  · have hkeys := hresolve.keys_nodup nodePath
    rw [dependenciesOf, dependenciesOf, ← hsame]
    refine SortedMap.ofList_eq_of_perm (horder.map _).symm ?_
    rwa [List.map_map]

end Dependencies

/-! ### The archive -/

namespace Archive

section Entries

variable {σ : Type} [AttachmentStore σ] {store : σ} {moduleBase : String}
  {R : Node → Node → Prop} {g h : Graph} {paths paths' : PathMap} {archive archive' : Archive}

/-- An archive is what its entries are. -/
theorem eq_of_mem_entries_iff
    (hentries : ∀ entry, entry ∈ archive.entries ↔ entry ∈ archive'.entries) :
    archive = archive' := by
  have hdirectories : archive.directories = archive'.directories := by
    refine SortedMap.ext_find? fun name => ?_
    refine Option.ext fun _ => ?_
    have hname := hentries ⟨name, none⟩
    simp only [mem_entries_none_iff, SortedMap.mem_keys_iff, Unique.exists_iff] at hname
    exact hname
  have hfiles : archive.files = archive'.files := by
    refine SortedMap.ext_find? fun name => Option.ext fun contents => ?_
    rw [← mem_entries_some_iff, hentries, mem_entries_some_iff]
  obtain ⟨directories, files⟩ := archive
  simp only at hdirectories hfiles
  rw [hdirectories, hfiles]

theorem IsConfigEntry.of_isTwin (ht : g.IsTwin R h) (hg : DistinctIds g.nodes)
    (hh : DistinctIds h.nodes) (hpaths : resolvePaths g.nodes = .ok paths)
    (hpaths' : resolvePaths h.nodes = .ok paths') {node twin : Node} (hr : R node twin)
    {path name : String} {contents : ByteArray}
    (hentry : IsConfigEntry moduleBase g paths node path name contents) :
    IsConfigEntry moduleBase h paths' twin path name contents := by
  obtain ⟨houtput, rfl, dependencies, hdeps, rfl⟩ := hentry
  have htwin := ht.twin hr
  rw [resolveDependencies_outgoing] at hdeps
  refine ⟨htwin.type ▸ houtput, by rw [htwin.type], dependencies, ?_, ?_⟩
  · rw [resolveDependencies_outgoing]
    exact htwin.resolveDependencies houtput hg hh hpaths hpaths' hdeps
  · rw [htwin.type, htwin.locals, htwin.inputs]

/-- Every entry of an archive is an entry of the other one. -/
theorem HoldsExactly.mem_of_isTwin (ht : g.IsTwin R h) (hg : DistinctIds g.nodes)
    (hh : DistinctIds h.nodes) (hpaths : resolvePaths g.nodes = .ok paths)
    (hpaths' : resolvePaths h.nodes = .ok paths')
    (hholds : HoldsExactly store moduleBase g paths archive)
    (hholds' : HoldsExactly store moduleBase h paths' archive') {entry : ArchiveEntry}
    (hmem : entry ∈ archive.entries) : entry ∈ archive'.entries := by
  obtain ⟨name, contents | contents⟩ := entry
  · obtain ⟨node, path, hnode, rfl⟩ := (hholds.directories name).1 hmem
    obtain ⟨twin, _, htwin⟩ := ht.forth hnode
    exact (hholds'.directories _).2 ⟨twin, path, htwin, rfl⟩
  · refine (hholds'.files name contents).2 (((hholds.files name contents).1 hmem).imp_right ?_)
    rintro ⟨node, path, hnode, hentry⟩
    obtain ⟨twin, hr, htwin⟩ := ht.forth hnode
    refine ⟨twin, path, htwin, hentry.imp (.of_isTwin ht hg hh hpaths hpaths' hr) ?_⟩
    rintro ⟨file, hfile, hattached⟩
    exact ⟨file, (ht.twin hr).files.mem_iff.2 hfile, hattached⟩

end Entries

end Archive

section Twin

variable {σ : Type} [AttachmentStore σ] {store : σ} {moduleBase : String}
  {R : Node → Node → Prop} {g h : Graph}

theorem Graph.IsTwin.ofGraph_eq_ok (ht : g.IsTwin R h) (hg : DistinctIds g.nodes)
    (hh : DistinctIds h.nodes) {archive : Archive}
    (harchive : Archive.ofGraph store moduleBase g = .ok archive) :
    Archive.ofGraph store moduleBase h = .ok archive := by
  have hcan := (Archive.exists_ofGraph_eq_ok_iff hg).1 ⟨archive, harchive⟩
  obtain ⟨archive', harchive'⟩ := (Archive.exists_ofGraph_eq_ok_iff hh).2 (hcan.of_isTwin ht)
  obtain ⟨paths, hpaths, hholds, _⟩ := Archive.ofGraph_holdsExactly hg harchive
  obtain ⟨paths', hpaths', hholds', _⟩ := Archive.ofGraph_holdsExactly hh harchive'
  rw [harchive', Archive.eq_of_mem_entries_iff fun entry =>
    ⟨hholds.mem_of_isTwin ht hg hh hpaths hpaths' hholds',
      hholds'.mem_of_isTwin ht.symm hh hg hpaths' hpaths hholds⟩]

/-- Graphs whose nodes come in pairs have the same archive, or both have none. -/
theorem Graph.IsTwin.ofGraph_eq_ok_iff (ht : g.IsTwin R h) (hg : DistinctIds g.nodes)
    (hh : DistinctIds h.nodes) {archive : Archive} :
    Archive.ofGraph store moduleBase g = .ok archive ↔
      Archive.ofGraph store moduleBase h = .ok archive :=
  ⟨ht.ofGraph_eq_ok hg hh, ht.symm.ofGraph_eq_ok hh hg⟩

end Twin

end InfraGraph
