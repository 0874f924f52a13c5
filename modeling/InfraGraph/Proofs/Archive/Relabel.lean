import InfraGraph.Proofs.Archive.Twin

/-!
# Graphs under other ids and in other orders

Ids only tell nodes apart, and nodes, edges and attached files are sets that happen to be kept as
lists.  The archive of a graph is the same under other ids and in any order, and so is the answer to
whether there is one.  Ids that no node has, as parents or at the ends of edges, are renamed too.
-/

namespace InfraGraph

/-- The texts that a graph uses as ids of nodes, whether there are such nodes or not. -/
def Graph.usedIds (g : Graph) : List String :=
  g.nodes.flatMap (fun node => node.id :: node.parentId.toList) ++
    g.edges.flatMap fun edge => [edge.source, edge.target]

/-- The node under another id, with what is attached to it in any order. -/
def Node.IsRelabelled (rename : String → String) (node copy : Node) : Prop :=
  ∃ files, files.Perm node.files ∧
    copy = { node with
      id := rename node.id
      parentId := node.parentId.map rename
      files := files }

/-- The edge between nodes under other ids. -/
def Edge.relabel (rename : String → String) (edge : Edge) : Edge :=
  { edge with source := rename edge.source, target := rename edge.target }

/-- The graph under other ids, with its nodes, its edges and what is attached in any order. -/
structure Graph.IsRelabelled (rename : String → String) (g h : Graph) : Prop where
  /-- Different ids stay different. -/
  inj : ∀ id ∈ g.usedIds, ∀ id' ∈ g.usedIds, rename id = rename id' → id = id'
  nodes : ∃ order, order.Perm h.nodes ∧ List.Forall₂ (Node.IsRelabelled rename) g.nodes order
  edges : h.edges.Perm (g.edges.map (Edge.relabel rename))

section Used

variable {g : Graph}

theorem Graph.id_mem_usedIds {node : Node} (h : node ∈ g.nodes) : node.id ∈ g.usedIds :=
  List.mem_append_left _ (List.mem_flatMap.2 ⟨node, h, List.mem_cons_self⟩)

theorem Graph.parentId_mem_usedIds {node : Node} (h : node ∈ g.nodes) {id : String}
    (hid : node.parentId = some id) : id ∈ g.usedIds :=
  List.mem_append_left _ (List.mem_flatMap.2
    ⟨node, h, List.mem_cons_of_mem _ (by rw [hid]; exact List.mem_singleton_self id)⟩)

theorem Graph.source_mem_usedIds {edge : Edge} (h : edge ∈ g.edges) : edge.source ∈ g.usedIds :=
  List.mem_append_right _ (List.mem_flatMap.2 ⟨edge, h, List.mem_cons_self⟩)

theorem Graph.target_mem_usedIds {edge : Edge} (h : edge ∈ g.edges) : edge.target ∈ g.usedIds :=
  List.mem_append_right _ (List.mem_flatMap.2
    ⟨edge, h, List.mem_cons_of_mem _ List.mem_cons_self⟩)

end Used

namespace Node.IsRelabelled

variable {rename : String → String} {node copy : Node}

theorem id (h : node.IsRelabelled rename copy) : copy.id = rename node.id := by
  obtain ⟨_, _, rfl⟩ := h
  rfl

theorem type (h : node.IsRelabelled rename copy) : copy.type = node.type := by
  obtain ⟨_, _, rfl⟩ := h
  rfl

theorem label (h : node.IsRelabelled rename copy) : copy.label = node.label := by
  obtain ⟨_, _, rfl⟩ := h
  rfl

theorem parentId (h : node.IsRelabelled rename copy) :
    copy.parentId = node.parentId.map rename := by
  obtain ⟨_, _, rfl⟩ := h
  rfl

theorem files (h : node.IsRelabelled rename copy) : copy.files.Perm node.files := by
  obtain ⟨_, hfiles, rfl⟩ := h
  exact hfiles

end Node.IsRelabelled

namespace Graph.IsRelabelled

variable {rename : String → String} {g h : Graph}

/-! ### Nodes -/

theorem distinctIds (hr : g.IsRelabelled rename h) (hids : DistinctIds g.nodes) :
    DistinctIds h.nodes := by
  obtain ⟨order, horder, hnodes⟩ := hr.nodes
  have hsame : g.nodes.map (fun node => rename node.id) = order.map (·.id) :=
    map_eq_map_of_forall₂ (hnodes.imp fun _ _ hcopy => hcopy.id.symm)
  rw [DistinctIds, ← (horder.map _).nodup_iff, ← hsame]
  refine List.Nodup.map_on (fun node hnode node' hnode' heq => ?_) (List.Nodup.of_map _ hids)
  exact hids.eq_of_id_eq hnode hnode'
    (hr.inj _ (id_mem_usedIds hnode) _ (id_mem_usedIds hnode') heq)

theorem exists_copy (hr : g.IsRelabelled rename h) {node : Node} (hnode : node ∈ g.nodes) :
    ∃ copy ∈ h.nodes, node.IsRelabelled rename copy := by
  obtain ⟨order, horder, hnodes⟩ := hr.nodes
  obtain ⟨copy, hcopy, hrel⟩ := exists_mem_of_forall₂ hnodes hnode
  exact ⟨copy, horder.mem_iff.1 hcopy, hrel⟩

theorem exists_original (hr : g.IsRelabelled rename h) {copy : Node} (hcopy : copy ∈ h.nodes) :
    ∃ node ∈ g.nodes, node.IsRelabelled rename copy := by
  obtain ⟨order, horder, hnodes⟩ := hr.nodes
  obtain ⟨node, hnode, hrel⟩ := exists_mem_of_forall₂ hnodes.flip (horder.mem_iff.2 hcopy)
  exact ⟨node, hnode, hrel⟩

/-- A node of the graph, and what it became. -/
def Pairs (rename : String → String) (g h : Graph) (node copy : Node) : Prop :=
  node ∈ g.nodes ∧ copy ∈ h.nodes ∧ node.IsRelabelled rename copy

theorem keepsPlaces_pairs : KeepsPlaces (Pairs rename g h) := by
  refine ⟨fun h => h.2.2.type, fun h => h.2.2.label, fun h htop => ?_,
    fun h hparent hbelow => ?_⟩
  · rw [h.2.2.parentId, htop, Option.map_none]
  · rw [h.2.2.parentId, hbelow, Option.map_some, hparent.2.2.id]

/-- Parents are told apart by their new ids, so the way back keeps places as well. -/
theorem keepsPlaces_flip (hr : g.IsRelabelled rename h) :
    KeepsPlaces fun copy node => Pairs rename g h node copy := by
  refine ⟨fun h => h.2.2.type.symm, fun h => h.2.2.label.symm, fun h htop => ?_,
    fun h hparent hbelow => ?_⟩
  · rwa [h.2.2.parentId, Option.map_eq_none_iff] at htop
  · rw [h.2.2.parentId, Option.map_eq_some_iff] at hbelow
    obtain ⟨id, hid, hrename⟩ := hbelow
    rw [hparent.2.2.id] at hrename
    rw [hid, hr.inj _ (parentId_mem_usedIds h.1 hid) _ (id_mem_usedIds hparent.1) hrename]

theorem isPlaced_copy (hr : g.IsRelabelled rename h) {node : Node} {path : String}
    (hplaced : IsPlaced g.nodes node path) :
    ∃ copy, Pairs rename g h node copy ∧ IsPlaced h.nodes copy path := by
  obtain ⟨hroot, parts, hlies, rfl⟩ := hplaced
  have hcopies : ∀ node ∈ g.nodes, ∃ copy ∈ h.nodes, Pairs rename g h node copy := by
    intro node hnode
    obtain ⟨copy, hcopy, hrel⟩ := hr.exists_copy hnode
    exact ⟨copy, hcopy, hnode, hcopy, hrel⟩
  obtain ⟨copy, hpair, hlies'⟩ := hlies.exists_copy keepsPlaces_pairs hcopies
  exact ⟨copy, hpair, hpair.2.2.type ▸ hroot, parts, hlies', rfl⟩

theorem isPlaced_original (hr : g.IsRelabelled rename h) {copy : Node} {path : String}
    (hplaced : IsPlaced h.nodes copy path) :
    ∃ node, Pairs rename g h node copy ∧ IsPlaced g.nodes node path := by
  obtain ⟨hroot, parts, hlies, rfl⟩ := hplaced
  have hcopies : ∀ copy ∈ h.nodes, ∃ node ∈ g.nodes, Pairs rename g h node copy := by
    intro copy hcopy
    obtain ⟨node, hnode, hrel⟩ := hr.exists_original hcopy
    exact ⟨node, hnode, hnode, hcopy, hrel⟩
  obtain ⟨node, hpair, hlies'⟩ := hlies.exists_copy hr.keepsPlaces_flip hcopies
  exact ⟨node, hpair, hpair.2.2.type ▸ hroot, parts, hlies', rfl⟩

theorem levelsComplete_iff (hr : g.IsRelabelled rename h) :
    LevelsComplete g.nodes ↔ LevelsComplete h.nodes := by
  refine forall₂_congr fun type _ => ⟨?_, ?_⟩
  · rintro ⟨node, hnode, rfl⟩
    obtain ⟨copy, hcopy, hrel⟩ := hr.exists_copy hnode
    exact ⟨copy, hcopy, hrel.type⟩
  · rintro ⟨copy, hcopy, rfl⟩
    obtain ⟨node, hnode, hrel⟩ := hr.exists_original hcopy
    exact ⟨node, hnode, hrel.type.symm⟩

/-! ### Edges -/

/-- An edge says the same under other ids. -/
theorem reference_relabel (hr : g.IsRelabelled rename h) {edge : Edge} (hedge : edge ∈ g.edges) :
    (edge.relabel rename).reference h.nodes = edge.reference g.nodes := by
  refine Prod.ext rfl (Set.ext fun path => ⟨?_, ?_⟩)
  · rintro ⟨target, hplaced, hid⟩
    obtain ⟨node, hpair, hplaced'⟩ := hr.isPlaced_original hplaced
    rw [hpair.2.2.id] at hid
    exact ⟨node, hplaced',
      hr.inj _ (id_mem_usedIds hpair.1) _ (target_mem_usedIds hedge) hid⟩
  · rintro ⟨target, hplaced, hid⟩
    obtain ⟨copy, hpair, hplaced'⟩ := hr.isPlaced_copy hplaced
    exact ⟨copy, hplaced', hpair.2.2.id.trans (congrArg rename hid)⟩

/-- The edges that are active at a node are active at what it became. -/
theorem activeEdges_perm (hr : g.IsRelabelled rename h) {node copy : Node}
    (hpair : Pairs rename g h node copy) :
    (activeEdges h.edges copy.id).Perm
      ((activeEdges g.edges node.id).map (Edge.relabel rename)) := by
  refine (hr.edges.filter _).trans (.of_eq ?_)
  rw [List.filter_map, activeEdges]
  congr 1
  refine List.filter_congr fun edge hedge => ?_
  have hsource : rename edge.source = rename node.id ↔ edge.source = node.id :=
    ⟨hr.inj _ (source_mem_usedIds hedge) _ (id_mem_usedIds hpair.1), congrArg rename⟩
  simp only [Function.comp_apply, Edge.relabel, hpair.2.2.id, hsource]

theorem isTwin_node (hr : g.IsRelabelled rename h) {node copy : Node}
    (hpair : Pairs rename g h node copy) : node.IsTwin g h copy := by
  have hreferences : ((activeEdges h.edges copy.id).map (Edge.reference h.nodes)).Perm
      ((activeEdges g.edges node.id).map (Edge.reference g.nodes)) := by
    refine ((hr.activeEdges_perm hpair).map _).trans (.of_eq ?_)
    rw [List.map_map]
    exact List.map_congr_left fun edge hedge =>
      hr.reference_relabel (mem_activeEdges.1 hedge).1
  obtain ⟨_, _, files, hfiles, rfl⟩ := hpair
  exact ⟨rfl, rfl, rfl, rfl, hfiles, fun _ => hreferences⟩

theorem isTwin (hr : g.IsRelabelled rename h) (hids : DistinctIds g.nodes) :
    g.IsTwin (Pairs rename g h) h := by
  refine ⟨hr.isTwin_node, hr.isPlaced_copy, hr.isPlaced_original, fun hpair hpair' => ?_,
    fun hpair hpair' => ?_, hr.levelsComplete_iff⟩
  · exact (hr.distinctIds hids).eq_of_id_eq hpair.2.1 hpair'.2.1
      (hpair.2.2.id.trans hpair'.2.2.id.symm)
  · exact hids.eq_of_id_eq hpair.1 hpair'.1 (hr.inj _ (id_mem_usedIds hpair.1) _
      (id_mem_usedIds hpair'.1) (hpair.2.2.id.symm.trans hpair'.2.2.id))

end Graph.IsRelabelled

section Relabel

variable {σ : Type} [AttachmentStore σ]

/-- Where ids are distinct, the archive of a graph doesn't depend on ids or on orders: under other
ids and in another order the graph has the same archive, or again none. -/
theorem ofGraph_eq_ok_iff_of_isRelabelled {rename : String → String} {g h : Graph}
    (hids : DistinctIds g.nodes) (hr : g.IsRelabelled rename h) (store : σ) (moduleBase : String)
    (archive : Archive) :
    Archive.ofGraph store moduleBase g = .ok archive ↔
      Archive.ofGraph store moduleBase h = .ok archive :=
  (hr.isTwin hids).ofGraph_eq_ok_iff hids (hr.distinctIds hids)

end Relabel

namespace TwoModules

/-- The graph with its nodes in the opposite order, under longer ids. -/
def reversed : Graph where
  nodes := (graph.nodes.map fun node =>
    { node with id := "n-" ++ node.id, parentId := node.parentId.map ("n-" ++ ·) }).reverse
  edges := graph.edges.map (Edge.relabel ("n-" ++ ·))

theorem isRelabelled_reversed : graph.IsRelabelled ("n-" ++ ·) reversed := by
  refine ⟨fun id _ id' _ => (String.append_right_inj _).1, ⟨_, (List.reverse_perm _).symm, ?_⟩,
    .refl _⟩
  rw [List.forall₂_map_right_iff, List.forall₂_same]
  exact fun node _ => ⟨node.files, .refl _, rfl⟩

/-- The two modules are generated from the opposite order as well, and into the same archive. -/
theorem ofGraph_reversed :
    DistinctIds graph.nodes ∧ graph.IsRelabelled ("n-" ++ ·) reversed ∧
      ∃ archive, Archive.ofGraph store ModuleSource.defaultBase graph = .ok archive ∧
        Archive.ofGraph store ModuleSource.defaultBase reversed = .ok archive := by
  obtain ⟨archive, harchive⟩ := exists_archive ModuleSource.defaultBase
  exact ⟨distinctIds, isRelabelled_reversed, archive, harchive,
    (ofGraph_eq_ok_iff_of_isRelabelled distinctIds isRelabelled_reversed store _ archive).1
      harchive⟩

end TwoModules

end InfraGraph
