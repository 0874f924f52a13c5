import InfraGraph.Proofs.Graph.Copy
import InfraGraph.Proofs.Import.Reconstruct
import InfraGraph.Proofs.Import.Restore

/-!
# What is found in the tree of a graph

A scan of the tree of a graph finds one folder for each node.  The ids that it gives out are a
renaming of the ids of the graph: under it parents, dependencies and attached files are those of the
nodes.
-/

namespace InfraGraph

namespace Finding

/-- The node that a folder makes, with its directory. -/
def scannedNode (f : Finding) : ScannedNode :=
  ⟨Scanner.nodeOf f.id (f.parts.getLastD "") f.parentId (f.parts.length - 1) f.settled
    (f.uploads.map Upload.reference), Path.unsplit f.parts, f.settled.fault⟩

/-- What the configuration file in a folder depends on. -/
def references (f : Finding) : List DependencyReference :=
  ((f.settled.config.map (·.dependencies)).getD []).map fun entry =>
    ⟨f.id, Path.unsplit f.parts, entry.2, entry.1⟩

/-- The dependency that an edge makes in the configuration file of a folder. -/
def reference (paths : PathMap) (f : Finding) (edge : Edge) : DependencyReference :=
  ⟨f.id, Path.unsplit f.parts, (edge.dependency (Path.unsplit f.parts) paths).2,
    (edge.dependency (Path.unsplit f.parts) paths).1⟩

theorem nodes_join (found : List Finding) :
    (Scanned.join (found.map output)).output.nodes = found.map scannedNode := by
  rw [Scanned.nodes_join, List.flatMap_map]
  exact List.map_eq_flatMap.symm

theorem dependencies_join (found : List Finding) :
    (Scanned.join (found.map output)).output.dependencies = found.flatMap references := by
  rw [Scanned.dependencies_join, List.flatMap_map]
  rfl

theorem uploads_join (found : List Finding) :
    (Scanned.join (found.map output)).uploads = found.flatMap uploads := by
  rw [Scanned.uploads_join, List.flatMap_map]
  rfl

/-- Nothing is wrong if all names can be stored. -/
theorem result_join {found : List Finding}
    (h : ∀ f ∈ found, ∀ upload ∈ f.uploads, Attachment.isValidName upload.name = true) :
    (Scanned.join (found.map output)).result =
      .ok (⟨found.map scannedNode, found.flatMap references⟩, found.flatMap uploads) := by
  have hfaults : (Scanned.join (found.map output)).faults = [] := by
    rw [Scanned.faults_join, List.flatMap_map, List.flatMap_eq_nil_iff]
    exact fun f hf => Scanner.refusedUploads_eq_nil_iff.2 (h f hf)
  rw [Scanned.result, hfaults]
  have houtput : (Scanned.join (found.map output)).output =
      ⟨found.map scannedNode, found.flatMap references⟩ := by
    rw [← nodes_join, ← dependencies_join]
  rw [houtput, uploads_join]
  rfl

end Finding

/-- The folders that were found are those of the nodes of a graph. -/
structure Restores {σ : Type} [AttachmentStore σ] (store : σ) (g : Graph) (paths : PathMap)
    (found : List Finding) (nodeOf : Finding → Node) : Prop where
  lies : ∀ f ∈ found, LiesAt g.nodes (nodeOf f) f.parts
  settled : ∀ f ∈ found, f.settled.IsOf (nodeOf f)
    (dependenciesOf g.edges paths (nodeOf f).id (Path.unsplit f.parts))
  uploads : ∀ f ∈ found, f.uploads.Perm ((nodeOf f).uploads store f.id)
  perm : (found.map nodeOf).Perm g.nodes
  parts_nodup : (found.map Finding.parts).Nodup
  ids_nodup : (found.map Finding.id).Nodup
  parent : ∀ f ∈ found, (f.parts.dropLast = [] ∧ f.parentId = none) ∨
    ∃ above ∈ found, f.parts.dropLast = above.parts ∧ f.parentId = some above.id

/-- The id that was given to the node with another one. -/
def idGivenTo (found : List Finding) (nodeOf : Finding → Node) (id : String) : String :=
  ((found.find? fun f => (nodeOf f).id = id).map Finding.id).getD ""

namespace Restores

open Archive (IsGenerable IsTreeOf)

variable {σ : Type} [AttachmentStore σ] {store : σ} {moduleBase : String} {g : Graph}
  {paths : PathMap} {found : List Finding} {nodeOf : Finding → Node}

/-- The folders that were found are those in the tree. -/
theorem exists_found_iff {es : List (String × FileTree)} {ids : NodeIds}
    {result : Scanned × NodeIds} (hwell : (FileTree.folder es).WellFormed)
    (hfinds : Finds [] none ids (FileTree.foldersOf [] es) found result) {parts : List String}
    {inner : List (String × FileTree)} :
    (∃ f ∈ found, f.parts = parts ∧ f.entries = inner) ↔
      parts ≠ [] ∧ (FileTree.folder es).find? parts = some (.folder inner) := by
  have hplaces : (parts, inner) ∈ FileTree.foldersOf [] es ↔
      ∃ f ∈ found, f.parts = parts ∧ f.entries = inner := by
    rw [← hfinds.places, List.mem_map]
    simp only [Finding.place, Prod.mk.injEq]
  rw [← hplaces, FileTree.mem_foldersOf_iff hwell]
  constructor
  · rintro ⟨name, rest, hparts, hfind⟩
    have hparts : parts = name :: rest := hparts
    rw [hparts]
    exact ⟨by simp, hfind⟩
  · rintro ⟨hne, hfind⟩
    obtain ⟨name, rest, rfl⟩ := List.exists_cons_of_ne_nil hne
    exact ⟨name, rest, rfl, hfind⟩

/-- Where the tree is that of a graph, each folder belongs to a node. -/
theorem exists_restores (hg : IsRestorable moduleBase g) (hids : DistinctIds g.nodes)
    (h : IsGenerable store moduleBase g paths) {es : List (String × FileTree)}
    (htree : IsTreeOf store moduleBase g paths (.folder es)) {result : Scanned × NodeIds}
    (hfinds : Finds [] none NodeIds.empty (FileTree.foldersOf [] es) found result) :
    ∃ nodeOf, Restores store g paths found nodeOf := by
  have hfolder : ∀ f ∈ found, f.parts ≠ [] ∧
      (FileTree.folder es).find? f.parts = some (.folder f.entries) := fun f hf =>
    (exists_found_iff htree.wellFormed hfinds).1 ⟨f, hf, rfl, rfl⟩
  have hnode : ∀ f ∈ found, ∃ node, LiesAt g.nodes node f.parts := by
    intro f hf
    obtain ⟨hne, hfind⟩ := hfolder f hf
    have hkind : (FileTree.folder es).kindAt f.parts = some .folder := by
      rw [FileTree.kindAt, hfind]
      rfl
    obtain ⟨node, _, hlies⟩ := ((htree.folder f.parts).1 hkind).resolve_left hne
    exact ⟨node, hlies⟩
  have hnonempty : Nonempty Node :=
    ⟨⟨"", .folder, none, 0, "", .empty, .empty, [], .origin, .none⟩⟩
  -- The directory of a folder decides which node it belongs to.
  choose! nodeOf hlies using hnode
  have hparts : (found.map Finding.parts).Nodup := by
    have hnodup := FileTree.nodup_foldersIn htree.wellFormed []
    rw [FileTree.foldersIn, List.map_cons, List.nodup_cons, ← hfinds.places, List.map_map] at hnodup
    exact hnodup.2
  have hnodes : (found.map nodeOf).Nodup := by
    refine (List.nodup_map_iff_inj_on hparts.of_map).2 fun f hf f' hf' hsame => ?_
    have hlies' := hlies f' hf'
    rw [← hsame] at hlies'
    exact List.inj_on_of_nodup_map hparts hf hf' (LiesAt.unique hids (hlies f hf) hlies')
  refine ⟨nodeOf, hlies, fun f hf => ?_, fun f hf => ?_, ?_, hparts, ?_, hfinds.parent⟩
  · obtain ⟨settled, hof, hsettled⟩ :=
      hg.exists_settled hids h htree (hlies f hf) (hfolder f hf).2
    obtain rfl := Except.ok.inj ((hsettled "").symm.trans (hfinds.settled f hf ""))
    exact hof
  · exact hg.uploads_perm hids h htree (hlies f hf) (hfolder f hf).2 f.id
  · rw [List.perm_ext_iff_of_nodup hnodes hids.of_map]
    intro node
    constructor
    · intro hnode
      obtain ⟨f, hf, rfl⟩ := List.mem_map.1 hnode
      exact (hlies f hf).mem
    · intro hnode
      obtain ⟨parts, hnodeLies⟩ := hg.placed node hnode
      have hkind : (FileTree.folder es).kindAt parts = some .folder :=
        (htree.folder parts).2 (.inr ⟨node, (hg.types node hnode).1, hnodeLies⟩)
      obtain ⟨inner, hinner⟩ := FileTree.exists_entries_of_kindAt hkind
      obtain ⟨f, hf, hparts, _⟩ :=
        (exists_found_iff htree.wellFormed hfinds).2 ⟨hg.ne_nil hnodeLies, hinner⟩
      have hfLies := hlies f hf
      rw [hparts] at hfLies
      refine List.mem_map.2 ⟨f, hf, ?_⟩
      exact (Archive.holdsExactly_ofPlan hids h).eq_of_path_eq _ _ _ (hg.isPlaced hfLies)
        (hg.isPlaced hnodeLies)
  · have hnodup := hfinds.nodup List.nodup_nil
    rw [hfinds.used, NodeIds.empty, List.append_nil, List.nodup_reverse] at hnodup
    exact hnodup

section Restored

variable {f : Finding}

theorem nodeOf_mem (hr : Restores store g paths found nodeOf) (hf : f ∈ found) :
    nodeOf f ∈ g.nodes :=
  (hr.lies f hf).mem

/-- The folder of every node was found. -/
theorem exists_of_mem (hr : Restores store g paths found nodeOf) {node : Node}
    (hnode : node ∈ g.nodes) : ∃ f ∈ found, nodeOf f = node :=
  List.mem_map.1 (hr.perm.mem_iff.2 hnode)

theorem idGivenTo_id (hr : Restores store g paths found nodeOf) (hids : DistinctIds g.nodes)
    (hf : f ∈ found) : idGivenTo found nodeOf (nodeOf f).id = f.id := by
  have hnodup : (found.map fun f => (nodeOf f).id).Nodup := by
    have hnodes : (g.nodes.map Node.id).Nodup := hids
    rw [← (hr.perm.map Node.id).nodup_iff, List.map_map] at hnodes
    exact hnodes
  rw [idGivenTo]
  cases hfind : found.find? fun f' => (nodeOf f').id = (nodeOf f).id with
  | none =>
      have hne := List.find?_eq_none.1 hfind f hf
      simp at hne
  | some f' =>
      have hsame : (nodeOf f').id = (nodeOf f).id := by simpa using List.find?_some hfind
      rw [List.inj_on_of_nodup_map hnodup (List.mem_of_find?_eq_some hfind) hf hsame]
      rfl

/-- The parent of a folder's node is the node of the folder above. -/
theorem parentId_eq (hr : Restores store g paths found nodeOf) (hg : IsRestorable moduleBase g)
    (hids : DistinctIds g.nodes) (h : IsGenerable store moduleBase g paths) (hf : f ∈ found) :
    f.parentId = (nodeOf f).parentId.map (idGivenTo found nodeOf) := by
  rcases hg.cases_parent (hr.lies f hf) with ⟨hnone, hparts⟩ | ⟨parent, front, hsome, hlies, hparts⟩
  · rcases hr.parent f hf with ⟨_, htop⟩ | ⟨above, habove, hfront, _⟩
    · rw [htop, hnone]
      rfl
    · rw [hparts] at hfront
      exact absurd hfront.symm (hg.ne_nil (hr.lies above habove))
  · have hdropLast : f.parts.dropLast = front := by rw [hparts, List.dropLast_concat]
    rcases hr.parent f hf with ⟨hnil, _⟩ | ⟨above, habove, hfront, hparent⟩
    · exact absurd (hdropLast.symm.trans hnil) (hg.ne_nil hlies)
    · have habove' := hr.lies above habove
      rw [← hfront, hdropLast] at habove'
      have hsame : nodeOf above = parent :=
        (Archive.holdsExactly_ofPlan hids h).eq_of_path_eq _ _ _ (hg.isPlaced habove')
          (hg.isPlaced hlies)
      rw [hparent, hsome, Option.map_some, ← hsame, hr.idGivenTo_id hids habove]

/-- Each folder makes a copy of its node. -/
theorem isCopy (hr : Restores store g paths found nodeOf) (hg : IsRestorable moduleBase g)
    (hids : DistinctIds g.nodes) (h : IsGenerable store moduleBase g paths) (hf : f ∈ found)
    (position : Position Float) (size : Size Float) :
    (nodeOf f).IsCopy (idGivenTo found nodeOf) (f.scannedNode.node.withFrame position size) := by
  have hsettled := hr.settled f hf
  refine ⟨(hr.idGivenTo_id hids hf).symm, hsettled.type, hr.parentId_eq hg hids h hf, ?_,
    hsettled.locals, hsettled.inputs⟩
  have hlast : f.parts.getLastD "" = (nodeOf f).label := by
    rcases hg.cases_parent (hr.lies f hf) with ⟨_, hparts⟩ | ⟨_, front, _, _, hparts⟩
    · rw [hparts]
      rfl
    · rw [hparts, List.getLastD_concat]
  exact hlast

/-! ### Dependencies -/

theorem dependenciesResolve (hr : Restores store g paths found nodeOf)
    (hg : IsRestorable moduleBase g) (hids : DistinctIds g.nodes)
    (h : IsGenerable store moduleBase g paths) (hf : f ∈ found)
    (houtput : (nodeOf f).type.hasOutput = true) :
    DependenciesResolve g.edges paths (nodeOf f).id := by
  have hplaced := hg.isPlaced (hr.lies f hf)
  exact h.dependencies _ ((Archive.mem_placedNodes_iff_isPlaced hids h.resolved).2 hplaced) houtput

theorem activeEdges_eq_nil (hr : Restores store g paths found nodeOf)
    (hg : IsRestorable moduleBase g) (hids : DistinctIds g.nodes) (hf : f ∈ found)
    (houtput : (nodeOf f).type.hasOutput ≠ true) : activeEdges g.edges (nodeOf f).id = [] := by
  rw [List.eq_nil_iff_forall_not_mem]
  intro edge hedge
  obtain ⟨hmem, hsource, henabled⟩ := mem_activeEdges.1 hedge
  obtain ⟨node, hnode, hid, hnodeOutput⟩ := hg.sources edge hmem henabled
  obtain rfl := hids.eq_of_id_eq hnode (hr.nodeOf_mem hf) (hid.trans hsource)
  exact houtput hnodeOutput

/-- The references of a folder are those of the enabled edges of its node. -/
theorem references_perm (hr : Restores store g paths found nodeOf) (hg : IsRestorable moduleBase g)
    (hids : DistinctIds g.nodes) (h : IsGenerable store moduleBase g paths) (hf : f ∈ found) :
    f.references.Perm ((activeEdges g.edges (nodeOf f).id).map (f.reference paths)) := by
  rw [Finding.references, (hr.settled f hf).dependencies]
  by_cases houtput : (nodeOf f).type.hasOutput = true
  · rw [if_pos houtput]
    have hperm := @toList_dependenciesOf_perm (Path.unsplit f.parts) _ _ _
      (hr.dependenciesResolve hg hids h hf houtput)
    have hmapped := hperm.map fun entry =>
      (⟨f.id, Path.unsplit f.parts, entry.2, entry.1⟩ : DependencyReference)
    rwa [List.map_map] at hmapped
  · rw [if_neg houtput, hr.activeEdges_eq_nil hg hids hf houtput]
    exact .nil

theorem paths_nodup (hr : Restores store g paths found nodeOf)
    (h : IsGenerable store moduleBase g paths) :
    ((found.map Finding.scannedNode).map (·.path)).Nodup := by
  rw [List.map_map]
  refine (List.nodup_map_iff_inj_on hr.parts_nodup.of_map).2 fun a ha b hb hsame => ?_
  exact List.inj_on_of_nodup_map hr.parts_nodup ha hb (Path.unsplit_inj
    ((hr.lies a ha).isPlain h.resolved) ((hr.lies b hb).isPlain h.resolved) hsame)

/-- A reference leads to the folder of the node that the edge leads to. -/
theorem idAt?_reference (hr : Restores store g paths found nodeOf)
    (hg : IsRestorable moduleBase g) (hids : DistinctIds g.nodes)
    (h : IsGenerable store moduleBase g paths) (hf : f ∈ found) {edge : Edge}
    (hedge : edge ∈ activeEdges g.edges (nodeOf f).id) :
    idAt? (found.map Finding.scannedNode) (f.reference paths edge).target =
        some (idGivenTo found nodeOf edge.target) ∧
      edge.dependencyName = some (f.reference paths edge).name ∧
      f.id = idGivenTo found nodeOf edge.source := by
  have houtput : (nodeOf f).type.hasOutput = true := by
    by_contra houtput
    rw [hr.activeEdges_eq_nil hg hids hf houtput] at hedge
    cases hedge
  have hresolvable := (hr.dependenciesResolve hg hids h hf houtput).resolvable edge hedge
  obtain ⟨_, hsource, _⟩ := mem_activeEdges.1 hedge
  refine ⟨?_, @Edge.IsResolvable.dependencyName (Path.unsplit f.parts) _ _ hresolvable, ?_⟩
  · obtain ⟨path, hpath⟩ := hresolvable.placed
    obtain ⟨node, parts, _, hid, hlies, rfl⟩ := (find?_resolvePaths hids h.resolved).1 hpath
    obtain ⟨f', hf', rfl⟩ := hr.exists_of_mem hlies.mem
    obtain rfl := LiesAt.unique hids (hr.lies f' hf') hlies
    have htarget : (f.reference paths edge).target = f'.scannedNode.path := by
      simp only [DependencyReference.target, Finding.reference, Edge.dependency, hpath,
        Option.getD_some]
      exact Path.resolve_relative (hg.ne_nil (hr.lies f hf)) (hg.ne_nil hlies)
        ((hr.lies f hf).isPlain h.resolved) (hlies.isPlain h.resolved)
    rw [htarget, idAt?_eq_some (hr.paths_nodup h) (List.mem_map.2 ⟨f', hf', rfl⟩), ← hid,
      hr.idGivenTo_id hids hf']
    rfl
  · rw [hsource, hr.idGivenTo_id hids hf]

/-! ### Attached files -/

theorem isValidName_of_mem_uploads (hr : Restores store g paths found nodeOf)
    (hg : IsRestorable moduleBase g) (hids : DistinctIds g.nodes)
    (h : IsGenerable store moduleBase g paths) (hf : f ∈ found) {upload : Upload}
    (hupload : upload ∈ f.uploads) : Attachment.isValidName upload.name = true := by
  have hmem := (hr.uploads f hf).mem_iff.1 hupload
  obtain ⟨file, hfile, rfl⟩ := List.mem_map.1 hmem
  have hplaced := (Archive.mem_placedNodes_iff_isPlaced hids h.resolved).2
    (hg.isPlaced (hr.lies f hf))
  exact h.valid _ hplaced file hfile

end Restored

theorem flatMap_uploads_perm (hr : Restores store g paths found nodeOf)
    (hids : DistinctIds g.nodes) :
    (found.flatMap Finding.uploads).Perm
      (g.nodes.flatMap fun node => node.uploads store (idGivenTo found nodeOf node.id)) := by
  have hperm := hr.perm.flatMap_right fun node =>
    node.uploads store (idGivenTo found nodeOf node.id)
  rw [List.flatMap_map] at hperm
  refine (List.Perm.flatMap_left found fun f hf => ?_).trans hperm
  rw [hr.idGivenTo_id hids hf]
  exact hr.uploads f hf

end Restores

end InfraGraph
