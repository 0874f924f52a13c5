import InfraGraph.Archive.Basic
import InfraGraph.Proofs.Graph.Dependencies
import InfraGraph.Proofs.Graph.Paths

/-!
# What goes into an archive

Generation collects files one after the other and stops at the first fault.  Here all files that a
graph asks for are listed beforehand: configuration files in the order of the ids of their nodes,
then attached files in the same order.  Generation succeeds exactly when nothing is wrong with any
of them and they don't get in each other's way, and then its result is made of all of them.
-/

namespace InfraGraph

/-- A file that an archive is to hold, and the node that it belongs to. -/
structure PlannedFile where
  path : String
  owner : String
  contents : ByteArray

/-- A file as an entry of the map of files. -/
def PlannedFile.entry (file : PlannedFile) : String × OwnedFile :=
  (file.path, ⟨file.owner, file.contents⟩)

namespace Archive

/-- The last node with an id, which is the one that counts. -/
def lastNode? (g : Graph) (id : String) : Option Node :=
  g.nodes.reverse.find? fun n => n.id = id

/-- The nodes of some entries of the map of directories, with their directories. -/
def placedNodes (g : Graph) (entries : List (String × String)) : List (Node × String) :=
  entries.filterMap fun entry => (lastNode? g entry.1).map fun node => (node, entry.2)

/-- The configuration file of a node, if its type has one. -/
def plannedConfigs (g : Graph) (moduleBase : String) (paths : PathMap) (placed : Node × String) :
    List PlannedFile :=
  if placed.1.type.hasOutput then
    let dependencies := dependenciesOf g.edges paths placed.1.id placed.2
    [⟨placed.2 ++ "/" ++ placed.1.type.outputFileName, placed.1.id,
      (configFile moduleBase placed.1 dependencies).text.toUTF8⟩]
  else []

/-- The attached files of a node. -/
def pendingFiles (placed : Node × String) : List PendingFile :=
  placed.1.files.map fun file => ⟨placed.2 ++ "/" ++ file.fileName, placed.1.id, file⟩

section Store

variable {σ : Type} [AttachmentStore σ]

/-- The contents that a store gives back for an id. -/
def storedContents? (store : σ) (id : String) : Option ByteArray :=
  match (StoreM.runIn store (AttachmentStore.get id)).1 with
  | .ok contents => contents
  | .error _ => none

/-- An attached file with what the store gives back for it. -/
def plannedAttachment (store : σ) (pending : PendingFile) : PlannedFile :=
  ⟨pending.path, pending.nodeId, (storedContents? store pending.file.fileId).getD .empty⟩

/-- All files but the one at the top. -/
def plannedFiles (store : σ) (moduleBase : String) (g : Graph) (paths : PathMap) :
    List PlannedFile :=
  (placedNodes g paths.toList).flatMap (plannedConfigs g moduleBase paths) ++
    ((placedNodes g paths.toList).flatMap pendingFiles).map (plannedAttachment store)

/-- The file at the top. -/
def bootstrapFile : PlannedFile :=
  ⟨NodeType.defaultFileName, bootstrapOwner, ConfigFile.bootstrapText.toUTF8⟩

/-- The names of the directories that the map of directories asks for. -/
def directoryNames (paths : PathMap) : List String :=
  paths.values.flatMap ancestors

/-- Nothing keeps a graph from being generated, where its directories are known. -/
structure IsGenerable (store : σ) (moduleBase : String) (g : Graph) (paths : PathMap) : Prop where
  resolved : resolvePaths g.nodes = .ok paths
  distinct : paths.values.Nodup
  complete : missingLevel? g.nodes = none
  dependencies : ∀ placed ∈ placedNodes g paths.toList, placed.1.type.hasOutput = true →
    DependenciesResolve g.edges paths placed.1.id
  valid : ∀ placed ∈ placedNodes g paths.toList, ∀ file ∈ placed.1.files,
    Attachment.isValidName file.fileName = true
  stored : ∀ placed ∈ placedNodes g paths.toList, ∀ file ∈ placed.1.files,
    ∃ contents, storedContents? store file.fileId = some contents
  free : ∀ file ∈ plannedFiles store moduleBase g paths, file.path ∉ paths.values
  nodup : ((bootstrapFile :: plannedFiles store moduleBase g paths).map (·.path)).Nodup

/-- The archive with all planned files. -/
def ofPlan (store : σ) (moduleBase : String) (g : Graph) (paths : PathMap) : Archive where
  directories := SortedMap.ofList ((directoryNames paths).map fun name => (name, ()))
  files := (SortedMap.empty.insertAll
    ((bootstrapFile :: plannedFiles store moduleBase g paths).map (·.entry))).map (·.contents)

end Store

/-! ### Adding files -/

/-- Adds files one after the other. -/
def placeAll (paths : PathMap) (files : SortedMap OwnedFile) (planned : List PlannedFile) :
    Except GraphError (SortedMap OwnedFile) :=
  planned.foldlM (fun files f => placeFile paths files f.path f.owner f.contents) files

section Placing

variable {g : Graph} {moduleBase : String} {paths : PathMap}

theorem directoryOwner?_eq_none_iff {path : String} :
    directoryOwner? paths path = none ↔ path ∉ paths.values := by
  simp only [directoryOwner?, Option.map_eq_none_iff, List.find?_eq_none, List.mem_reverse,
    decide_eq_true_eq, SortedMap.values, List.mem_map, not_exists, not_and]

theorem placeFile_eq_ok_iff {files result : SortedMap OwnedFile} {file : PlannedFile} :
    placeFile paths files file.path file.owner file.contents = .ok result ↔
      file.path ∉ paths.values ∧ file.entry.1 ∉ files.keys ∧
        result = files.insert file.entry.1 file.entry.2 := by
  rw [← directoryOwner?_eq_none_iff, ← SortedMap.find?_eq_none_iff]
  unfold placeFile
  cases howner : directoryOwner? paths file.path with
  | some owner => simp
  | none =>
      cases hexisting : files.find? file.path with
      | some existing => simp [PlannedFile.entry, hexisting]
      | none => simp [PlannedFile.entry, hexisting, eq_comm]

theorem placeAll_eq_ok_iff {files result : SortedMap OwnedFile} {planned : List PlannedFile} :
    placeAll paths files planned = .ok result ↔
      (∀ file ∈ planned, file.path ∉ paths.values) ∧ (planned.map (·.path)).Nodup ∧
        (∀ file ∈ planned, file.path ∉ files.keys) ∧
        result = files.insertAll (planned.map (·.entry)) := by
  have hfold := @SortedMap.foldlM_eq_ok_iff_insertAll OwnedFile GraphError PlannedFile
    (fun files f => placeFile paths files f.path f.owner f.contents) PlannedFile.entry
    (fun file => file.path ∉ paths.values) (fun _ _ _ => placeFile_eq_ok_iff) planned files result
  exact hfold

theorem placeAll_append_eq_ok_iff {files result : SortedMap OwnedFile}
    {xs ys : List PlannedFile} :
    placeAll paths files (xs ++ ys) = .ok result ↔
      ∃ between, placeAll paths files xs = .ok between ∧
        placeAll paths between ys = .ok result := by
  rw [placeAll, List.foldlM_append, bind_eq_ok_iff]
  rfl

theorem resolveDependencies_outgoing (id path : String) :
    resolveDependencies id path (g.outgoing id) paths =
      resolveDependencies id path g.edges paths := by
  rw [resolveDependencies, ← activeEdges, activeEdges_outgoing]
  rfl

theorem placeConfig_eq_ok_iff {placed : Node × String} {files result : SortedMap OwnedFile} :
    placeConfig g moduleBase paths placed.1 placed.2 files = .ok result ↔
      (placed.1.type.hasOutput = true → DependenciesResolve g.edges paths placed.1.id) ∧
        placeAll paths files (plannedConfigs g moduleBase paths placed) = .ok result := by
  unfold placeConfig plannedConfigs
  by_cases houtput : placed.1.type.hasOutput = true
  · simp only [houtput, if_true, forall_const]
    rw [bind_eq_ok_iff]
    simp only [resolveDependencies_outgoing, resolveDependencies_eq_ok_iff]
    constructor
    · rintro ⟨_, ⟨hresolve, rfl⟩, hplace⟩
      refine ⟨hresolve, ?_⟩
      rw [placeAll, List.foldlM_cons, bind_eq_ok_iff]
      exact ⟨result, hplace, rfl⟩
    · rintro ⟨hresolve, hplace⟩
      rw [placeAll, List.foldlM_cons, bind_eq_ok_iff] at hplace
      obtain ⟨next, hplace, hrest⟩ := hplace
      obtain rfl := Except.ok.inj hrest
      exact ⟨_, ⟨hresolve, rfl⟩, hplace⟩
  · simp [houtput, placeAll, pure, Except.pure]

theorem notePending_eq_ok_iff {node : Node} {nodePath : String} {file : FileRef}
    {pending result : List PendingFile} :
    notePending node nodePath pending file = .ok result ↔
      Attachment.isValidName file.fileName = true ∧
        result = ⟨nodePath ++ "/" ++ file.fileName, node.id, file⟩ :: pending := by
  unfold notePending
  split
  · rename_i hvalid
    simp only [Except.ok.injEq, hvalid, true_and]
    exact eq_comm
  · rename_i hvalid
    simp [hvalid]

/-- Attached files are noted in front of those that are there already. -/
theorem foldlM_notePending_eq_ok_iff {node : Node} {nodePath : String} {files : List FileRef}
    {pending result : List PendingFile} :
    files.foldlM (notePending node nodePath) pending = .ok result ↔
      (∀ file ∈ files, Attachment.isValidName file.fileName = true) ∧
        result =
          (files.map fun file => ⟨nodePath ++ "/" ++ file.fileName, node.id, file⟩).reverse ++
          pending := by
  induction files generalizing pending with
  | nil =>
      simp only [List.foldlM_nil, pure, Except.pure, Except.ok.injEq]
      exact ⟨fun h => ⟨by simp, h.symm⟩, fun h => h.2.symm⟩
  | cons file rest ih =>
      rw [List.foldlM_cons, bind_eq_ok_iff, List.forall_mem_cons]
      simp only [notePending_eq_ok_iff, ih]
      constructor
      · rintro ⟨_, ⟨hvalid, rfl⟩, hrest, rfl⟩
        exact ⟨⟨hvalid, hrest⟩, by simp⟩
      · rintro ⟨⟨hvalid, hrest⟩, rfl⟩
        exact ⟨_, ⟨hvalid, rfl⟩, hrest, by simp⟩

/-- Placing a node adds its configuration file, and notes its attached files. -/
theorem placeNode_eq_ok_iff {entry : String × String} {node : Node}
    {placement result : Placement} (hnode : lastNode? g entry.1 = some node) :
    placeNode g moduleBase paths placement entry = .ok result ↔
      ((node.type.hasOutput = true → DependenciesResolve g.edges paths node.id) ∧
        placeAll paths placement.files (plannedConfigs g moduleBase paths (node, entry.2)) =
          .ok result.files) ∧
      (∀ file ∈ node.files, Attachment.isValidName file.fileName = true) ∧
        result.pending = (pendingFiles (node, entry.2)).reverse ++ placement.pending := by
  obtain ⟨files, pending⟩ := result
  unfold lastNode? at hnode
  simp only [placeNode, hnode]
  rw [bind_eq_ok_iff]
  have hconfig := fun files result =>
    @placeConfig_eq_ok_iff g moduleBase paths (node, entry.2) files result
  simp only [bind_eq_ok_iff, hconfig, foldlM_notePending_eq_ok_iff, pure, Except.pure,
    Except.ok.injEq, Placement.mk.injEq, pendingFiles]
  constructor
  · rintro ⟨_, hconfig, _, hnote, rfl, rfl⟩
    exact ⟨hconfig, hnote⟩
  · rintro ⟨hconfig, hnote⟩
    exact ⟨files, hconfig, pending, hnote, rfl, rfl⟩

/-- Placing the nodes of some entries adds all their configuration files, and notes all their
attached files. -/
theorem foldlM_placeNode_eq_ok_iff {entries : List (String × String)}
    {placement result : Placement} :
    entries.foldlM (placeNode g moduleBase paths) placement = .ok result ↔
      (∀ placed ∈ placedNodes g entries,
        (placed.1.type.hasOutput = true → DependenciesResolve g.edges paths placed.1.id) ∧
        ∀ file ∈ placed.1.files, Attachment.isValidName file.fileName = true) ∧
      placeAll paths placement.files
        ((placedNodes g entries).flatMap (plannedConfigs g moduleBase paths)) = .ok result.files ∧
      result.pending =
        ((placedNodes g entries).flatMap pendingFiles).reverse ++ placement.pending := by
  induction entries generalizing placement with
  | nil =>
      obtain ⟨files, pending⟩ := placement
      obtain ⟨files', pending'⟩ := result
      simp only [List.foldlM_nil, placedNodes, List.filterMap_nil, List.flatMap_nil, placeAll, pure,
        Except.pure, Except.ok.injEq, Placement.mk.injEq]
      exact ⟨fun h => ⟨by simp, h.1, h.2.symm⟩, fun h => ⟨h.2.1, h.2.2.symm⟩⟩
  | cons entry rest ih =>
      rw [List.foldlM_cons, bind_eq_ok_iff]
      cases hnode : lastNode? g entry.1 with
      | none =>
          have hplaced : placedNodes g (entry :: rest) = placedNodes g rest := by
            simp [placedNodes, hnode]
          have hstep : placeNode g moduleBase paths placement entry = .ok placement := by
            unfold lastNode? at hnode
            simp only [placeNode, hnode]
          simp [hstep, hplaced, ih]
      | some node =>
          have hplaced : placedNodes g (entry :: rest) = (node, entry.2) :: placedNodes g rest := by
            simp [placedNodes, hnode]
          have hstep := fun next =>
            @placeNode_eq_ok_iff g moduleBase paths entry node placement next hnode
          rw [hplaced, List.forall_mem_cons, List.flatMap_cons, List.flatMap_cons]
          simp only [placeAll_append_eq_ok_iff, hstep, ih, List.reverse_append,
            List.append_assoc]
          constructor
          · rintro ⟨next, ⟨⟨hdeps, hfiles⟩, hvalid, hpending⟩, hall, hrest, hresult⟩
            exact ⟨⟨⟨hdeps, hvalid⟩, hall⟩, ⟨_, hfiles, hrest⟩, by rw [hresult, hpending]⟩
          · rintro ⟨⟨⟨hdeps, hvalid⟩, hall⟩, ⟨between, hfiles, hrest⟩, hresult⟩
            exact ⟨⟨between, _⟩, ⟨⟨hdeps, hfiles⟩, hvalid, rfl⟩, hall, hrest, hresult⟩

end Placing

/-! ### Generating -/

section Generating

variable {σ : Type} [AttachmentStore σ] {store : σ} {moduleBase : String} {g : Graph}

theorem storedContents?_eq_some_iff {id : String} {contents : ByteArray} :
    storedContents? store id = some contents ↔
      (StoreM.runIn store (AttachmentStore.get id)).1 = .ok (some contents) := by
  unfold storedContents?
  cases (StoreM.runIn store (AttachmentStore.get id)).1 <;> simp

/-- An attached file is fetched when the store gives something back for it. -/
theorem fetch_eq_ok_iff {pending : PendingFile} {fetched : PendingFile × ByteArray} :
    fetch store pending = .ok fetched ↔
      storedContents? store pending.file.fileId = some fetched.2 ∧ fetched.1 = pending := by
  obtain ⟨pending', contents⟩ := fetched
  unfold fetch storedContents?
  cases (StoreM.runIn store (AttachmentStore.get pending.file.fileId)).1 with
  | error e => simp
  | ok found =>
      cases found with
      | none => simp
      | some contents' =>
          simp only [Except.ok.injEq, Prod.mk.injEq, Option.some.injEq]
          exact ⟨fun h => ⟨h.2, h.1.symm⟩, fun h => ⟨h.2.symm, h.1⟩⟩

theorem mapM_fetch_eq_ok_iff {pending : List PendingFile}
    {fetched : List (PendingFile × ByteArray)} :
    pending.mapM (fetch store) = .ok fetched ↔
      (∀ p ∈ pending, ∃ contents, storedContents? store p.file.fileId = some contents) ∧
        fetched =
          pending.map fun p => (p, (storedContents? store p.file.fileId).getD .empty) := by
  constructor
  · intro h
    have hstored : ∀ p ∈ pending, ∃ contents,
        storedContents? store p.file.fileId = some contents := by
      intro p hp
      obtain ⟨result, hfetch⟩ := exists_mapM_eq_ok_iff.1 ⟨fetched, h⟩ p hp
      exact ⟨result.2, (fetch_eq_ok_iff.1 hfetch).1⟩
    refine ⟨hstored, ?_⟩
    have hmap : pending.mapM (fetch store) = .ok (pending.map fun p =>
        (p, (storedContents? store p.file.fileId).getD .empty)) := by
      refine mapM_eq_ok_map fun p hp => ?_
      obtain ⟨contents, hcontents⟩ := hstored p hp
      exact fetch_eq_ok_iff.2 ⟨by simp [hcontents], rfl⟩
    exact Except.ok.inj (h.symm.trans hmap)
  · rintro ⟨hstored, rfl⟩
    refine mapM_eq_ok_map fun p hp => ?_
    obtain ⟨contents, hcontents⟩ := hstored p hp
    exact fetch_eq_ok_iff.2 ⟨by simp [hcontents], rfl⟩

theorem foldlM_placeFetched {paths : PathMap} {files : SortedMap OwnedFile}
    {pending : List PendingFile} :
    (pending.map fun p => (p, (storedContents? store p.file.fileId).getD .empty)).foldlM
      (fun files (p, contents) => placeFile paths files p.path p.nodeId contents) files =
        placeAll paths files (pending.map (plannedAttachment store)) := by
  rw [placeAll, List.foldlM_map, List.foldlM_map]
  rfl

/-- The files at the top and of the nodes are placed exactly when they are free and different from
each other. -/
theorem placeAll_bootstrap_eq_ok_iff {paths : PathMap} {planned : List PlannedFile}
    {result : SortedMap OwnedFile} :
    placeAll paths (SortedMap.empty.insert bootstrapFile.entry.1 bootstrapFile.entry.2) planned =
        .ok result ↔
      (∀ file ∈ planned, file.path ∉ paths.values) ∧
        ((bootstrapFile :: planned).map (·.path)).Nodup ∧
        result = SortedMap.empty.insertAll ((bootstrapFile :: planned).map (·.entry)) := by
  rw [placeAll_eq_ok_iff, List.map_cons, List.nodup_cons, List.map_cons, SortedMap.insertAll,
    SortedMap.insertAll, List.foldl_cons]
  have hkeys : ∀ key, key ∉ (SortedMap.empty.insert bootstrapFile.entry.1
      bootstrapFile.entry.2).keys ↔ key ≠ bootstrapFile.path := by
    intro key
    rw [SortedMap.mem_keys_insert]
    simp [SortedMap.keys, PlannedFile.entry]
  have hfresh : (∀ file ∈ planned, file.path ≠ bootstrapFile.path) ↔
      bootstrapFile.path ∉ planned.map (·.path) := by
    simp only [List.mem_map, not_exists, not_and]
  simp only [hkeys, hfresh]
  tauto

/-- Generation succeeds exactly when nothing keeps the graph from being generated, and the result
holds everything that was planned. -/
theorem ofGraph_eq_ok_iff {archive : Archive} :
    ofGraph store moduleBase g = .ok archive ↔
      ∃ paths, IsGenerable store moduleBase g paths ∧
        archive = ofPlan store moduleBase g paths := by
  unfold ofGraph
  rw [bind_eq_ok_iff]
  simp only [bind_eq_ok_iff]
  constructor
  · rintro ⟨paths, hresolve, ⟨⟩, hunique, h⟩
    split at h
    · simp at h
    · rename_i hcomplete
      obtain ⟨placement, hplace, h⟩ := bind_eq_ok_iff.1 h
      obtain ⟨fetched, hfetch, h⟩ := bind_eq_ok_iff.1 h
      obtain ⟨files, hfiles, h⟩ := bind_eq_ok_iff.1 h
      obtain ⟨hnodes, hconfigs, hpending⟩ := foldlM_placeNode_eq_ok_iff.1 hplace
      rw [List.append_nil] at hpending
      rw [hpending, List.reverse_reverse] at hfetch
      obtain ⟨hstored, rfl⟩ := mapM_fetch_eq_ok_iff.1 hfetch
      rw [foldlM_placeFetched] at hfiles
      have hall := placeAll_append_eq_ok_iff.2 ⟨_, hconfigs, hfiles⟩
      obtain ⟨hfree, hnodup, rfl⟩ := placeAll_bootstrap_eq_ok_iff.1 hall
      refine ⟨paths, ?_, (Except.ok.inj h).symm⟩
      refine ⟨hresolve, ensureUnique_eq_ok_iff.1 hunique, hcomplete,
        fun placed hplaced => (hnodes placed hplaced).1,
        fun placed hplaced => (hnodes placed hplaced).2, fun placed hplaced file hfile => ?_,
        hfree, hnodup⟩
      exact hstored ⟨_, placed.1.id, file⟩
        (List.mem_flatMap.2 ⟨placed, hplaced, List.mem_map.2 ⟨file, hfile, rfl⟩⟩)
  · rintro ⟨paths, h, rfl⟩
    refine ⟨paths, h.resolved, (), ensureUnique_eq_ok_iff.2 h.distinct, ?_⟩
    rw [h.complete]
    obtain ⟨configured, hconfigs, hfiles⟩ := placeAll_append_eq_ok_iff.1
      (placeAll_bootstrap_eq_ok_iff.2 ⟨h.free, h.nodup, rfl⟩)
    have hplace := (@foldlM_placeNode_eq_ok_iff g moduleBase paths paths.toList ⟨_, []⟩
      ⟨configured, _⟩).2
        ⟨fun placed hplaced => ⟨h.dependencies placed hplaced, h.valid placed hplaced⟩,
          hconfigs, rfl⟩
    have hstored : ∀ p ∈ (placedNodes g paths.toList).flatMap pendingFiles,
        ∃ contents, storedContents? store p.file.fileId = some contents := by
      intro p hp
      obtain ⟨placed, hplaced, hp⟩ := List.mem_flatMap.1 hp
      obtain ⟨file, hfile, rfl⟩ := List.mem_map.1 hp
      exact h.stored placed hplaced file hfile
    have hfetch := mapM_fetch_eq_ok_iff.2 ⟨hstored, rfl⟩
    rw [← foldlM_placeFetched] at hfiles
    refine bind_eq_ok_iff.2 ⟨_, hplace, ?_⟩
    simp only [List.append_nil, List.reverse_reverse]
    exact bind_eq_ok_iff.2 ⟨_, hfetch, bind_eq_ok_iff.2 ⟨_, hfiles, rfl⟩⟩

end Generating

end Archive

end InfraGraph
