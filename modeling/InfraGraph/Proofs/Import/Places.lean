import InfraGraph.Proofs.FileTree.Listing
import InfraGraph.Proofs.Import.Coverage
import InfraGraph.Proofs.Import.WellFormed

/-!
# Where imported nodes lie

A node that comes from a folder has the name of the folder as its label, and its parent comes from
the folder around it.  So the nodes of an imported graph lie where their folders lie, as long as
every label can be the name of a directory as it is.
-/

namespace InfraGraph

/-! ### Names on the way -/

theorem Path.components_walk {top : String} {parts : List String}
    (h : ∀ name ∈ parts, IsPlain name) :
    components (walk top parts) = components top ++ parts := by
  induction parts using List.reverseRecOn with
  | nil => simp
  | append_singleton front last ih =>
      rw [forall_isPlain_concat] at h
      rw [walk_concat, components_join h.2, ih h.1, List.append_assoc]

theorem Path.precedes_iff {a b : List String} : Precedes a b ↔ a < b := by
  have hrel : (fun a b : String => Text.bytes a < Text.bytes b) = (· < ·) := by
    funext a b
    exact propext Text.bytes_lt_iff
  rw [Precedes, hrel]
  rfl

/-! ### Folders above each other -/

section Visits

variable {scanner : Scanner} {top : String} {depth : Nat} {parentId : Option String}
  {ids ids' : NodeIds} {items : List (List String × FileTree)} {found : List Visit}

/-- A folder that is kept is one of those that the walk starts with, or the folder around it is kept
as well and makes its parent. -/
theorem Scanner.Visits.parent (h : scanner.Visits top depth parentId ids items found ids') :
    ∀ v ∈ found, ((∃ item ∈ items, v.parts = item.1) ∧ v.parentId = parentId ∧ v.depth = depth) ∨
      ∃ above ∈ found, ∃ name, v.parts = above.parts ++ [name] ∧ v.parentId = some above.id ∧
        v.depth = above.depth + 1 := by
  induction h with
  | done => exact fun _ hv => absurd hv List.not_mem_nil
  | pass _ _ ih =>
      exact fun v hv => (ih v hv).imp_left fun ⟨⟨item, hitem, hparts⟩, hparent⟩ =>
        ⟨⟨item, List.mem_cons_of_mem _ hitem, hparts⟩, hparent⟩
  | prune _ _ _ _ _ ihrest =>
      exact fun v hv => (ihrest v hv).imp_left fun ⟨⟨item, hitem, hparts⟩, hparent⟩ =>
        ⟨⟨item, List.mem_cons_of_mem _ hitem, hparts⟩, hparent⟩
  | keep _ _ _ _ _ _ ihbelow ihrest =>
      rw [List.forall_mem_cons, List.forall_mem_append]
      refine ⟨.inl ⟨⟨_, List.mem_cons_self, rfl⟩, rfl, rfl⟩, fun v hv => .inr ?_, fun v hv => ?_⟩
      · rcases ihbelow v hv with ⟨⟨item, hitem, hparts⟩, hparent, hdepth⟩ | ⟨above, habove, hname⟩
        · obtain ⟨entry, _, rfl⟩ := List.mem_map.1 hitem
          exact ⟨_, List.mem_cons_self, entry.1, hparts, hparent, hdepth⟩
        · exact ⟨above, List.mem_cons_of_mem _ (List.mem_append_left _ habove), hname⟩
      · rcases ihrest v hv with ⟨⟨item, hitem, hparts⟩, hparent⟩ | ⟨above, habove, hname⟩
        · exact .inl ⟨⟨item, List.mem_cons_of_mem _ hitem, hparts⟩, hparent⟩
        · exact .inr ⟨above, List.mem_cons_of_mem _ (List.mem_append_right _ habove), hname⟩

end Visits

/-- The node comes from the folder, and was laid out. -/
def Visit.Makes (scanner : Scanner) (v : Visit) (node : Node) : Prop :=
  ∃ position size, node = (v.node scanner scanner.root).withFrame position size

namespace Visit.Makes

variable {scanner : Scanner} {v : Visit} {node : Node}

theorem id_eq (h : v.Makes scanner node) : node.id = v.id := by
  obtain ⟨position, size, rfl⟩ := h
  rfl

theorem parentId_eq (h : v.Makes scanner node) : node.parentId = v.parentId := by
  obtain ⟨position, size, rfl⟩ := h
  rfl

theorem type_eq (h : v.Makes scanner node) : node.type = v.settled.type := by
  obtain ⟨position, size, rfl⟩ := h
  rfl

theorem files_eq (h : v.Makes scanner node) : node.files = v.uploads.map Upload.reference := by
  obtain ⟨position, size, rfl⟩ := h
  rfl

end Visit.Makes

/-- The nodes of a graph are those of the folders that are kept in the root of a scan. -/
structure Scanner.IsImport (scanner : Scanner) (entries : List (String × FileTree))
    (found : List Visit) (nodes : List Node) : Prop where
  visits : ∃ ids, scanner.Visits scanner.root 0 none .empty (FileTree.itemsIn [] entries) found ids
  wellFormed : (FileTree.folder entries).WellFormed
  plain : (FileTree.folder entries).FoldersPlain
  makes : List.Forall₂ (Visit.Makes scanner) found nodes

namespace Scanner.IsImport

variable {scanner : Scanner} {entries : List (String × FileTree)} {found : List Visit}
  {nodes : List Node} {v w : Visit} {node : Node}

theorem exists_node (h : scanner.IsImport entries found nodes) (hv : v ∈ found) :
    ∃ node ∈ nodes, v.Makes scanner node :=
  exists_mem_of_forall₂ h.makes hv

theorem exists_visit (h : scanner.IsImport entries found nodes) (hnode : node ∈ nodes) :
    ∃ v ∈ found, v.Makes scanner node :=
  exists_mem_of_forall₂ h.makes.flip hnode

theorem ids_eq (h : scanner.IsImport entries found nodes) :
    nodes.map (·.id) = found.map (·.id) :=
  (map_eq_map_of_forall₂ (h.makes.imp fun _ _ hmakes => hmakes.id_eq.symm)).symm

theorem distinctIds (h : scanner.IsImport entries found nodes) : DistinctIds nodes := by
  obtain ⟨ids, hvisits⟩ := h.visits
  rw [DistinctIds, h.ids_eq]
  exact hvisits.nodup_ids List.nodup_nil

/-- A folder that is kept is part of the tree. -/
theorem find?_eq (h : scanner.IsImport entries found nodes) (hv : v ∈ found) :
    v.parts ≠ [] ∧ (FileTree.folder entries).find? v.parts = some (.folder v.entries) := by
  obtain ⟨ids, hvisits⟩ := h.visits
  obtain ⟨_, item, hitem, more, hparts, hfind⟩ :=
    hvisits.exists_item (wellFormed_itemsIn h.wellFormed []) v hv
  obtain ⟨name, hname, hentry⟩ :=
    find?_of_mem_itemsIn (FileTree.wellFormed_folder_iff.1 h.wellFormed).1 hitem more
  rw [hparts, hname, List.nil_append, List.singleton_append]
  exact ⟨List.cons_ne_nil _ _, hentry.trans hfind⟩

theorem isPlain (h : scanner.IsImport entries found nodes) (hv : v ∈ found) :
    ∀ name ∈ v.parts, Path.IsPlain name :=
  h.plain _ _ (h.find?_eq hv).2

theorem ascending (h : scanner.IsImport entries found nodes) (hv : v ∈ found) :
    Entries.Ascending v.entries :=
  (FileTree.wellFormed_folder_iff.1 (h.wellFormed.of_find? (h.find?_eq hv).2)).1

/-- The directories of nodes come in ascending order. -/
theorem pairwise_parts (h : scanner.IsImport entries found nodes) :
    (found.map (·.parts)).Pairwise (· < ·) := by
  obtain ⟨ids, hvisits⟩ := h.visits
  have hordered := itemsOrdered_itemsIn (FileTree.wellFormed_folder_iff.1 h.wellFormed).1 []
  exact List.pairwise_map.2 ((hvisits.pairwise_precedes (wellFormed_itemsIn h.wellFormed [])
    hordered).imp Path.precedes_iff.1)

theorem eq_of_parts_eq (h : scanner.IsImport entries found nodes) (hv : v ∈ found)
    (hw : w ∈ found) (hparts : v.parts = w.parts) : v = w :=
  List.inj_on_of_nodup_map (h.pairwise_parts.imp ne_of_lt) hv hw hparts

theorem path_eq (h : scanner.IsImport entries found nodes) (hv : v ∈ found) :
    v.path scanner scanner.root = Path.unsplit v.parts :=
  relative_eq (Path.components_walk (h.isPlain hv))

/-- The label of a node is the name of its folder. -/
theorem label_eq (h : scanner.IsImport entries found nodes) (hv : v ∈ found)
    (hmakes : v.Makes scanner node) {front : List String} {name : String}
    (hparts : v.parts = front ++ [name]) : node.label = name := by
  obtain ⟨position, size, rfl⟩ := hmakes
  have hname : Path.IsPlain name := h.isPlain hv name (by simp [hparts])
  change (Path.fileName? (Path.walk scanner.root v.parts)).getD _ = name
  rw [hparts, Path.walk_concat, Path.fileName?_join hname]
  rfl

/-- A node lies at the top, or the folder around its own makes its parent. -/
theorem parent (h : scanner.IsImport entries found nodes) (hv : v ∈ found) :
    (∃ name, v.parts = [name] ∧ v.parentId = none ∧ v.depth = 0) ∨
      ∃ above ∈ found, ∃ name, v.parts = above.parts ++ [name] ∧ v.parentId = some above.id ∧
        v.depth = above.depth + 1 := by
  obtain ⟨ids, hvisits⟩ := h.visits
  rcases hvisits.parent v hv with ⟨⟨item, hitem, hparts⟩, hparent⟩ | habove
  · obtain ⟨entry, _, rfl⟩ := List.mem_map.1 hitem
    exact .inl ⟨entry.1, hparts, hparent⟩
  · exact .inr habove

theorem depth_eq (h : scanner.IsImport entries found nodes) (hv : v ∈ found) :
    v.depth + 1 = v.parts.length := by
  -- The folder around a folder has fewer names.
  induction hlength : v.parts.length generalizing v with
  | zero => exact absurd (List.length_eq_zero_iff.1 hlength) (h.find?_eq hv).1
  | succ length ih =>
      rcases h.parent hv with ⟨name, hparts, _, hdepth⟩ | ⟨above, habove, name, hparts, _, hdepth⟩
      · rw [hparts, List.length_singleton] at hlength
        omega
      · rw [hparts, List.length_append, List.length_singleton, Nat.add_right_cancel_iff] at hlength
        rw [hdepth, ih habove hlength]

/-- The labels from the top down to a node are the names that lead to its folder. -/
theorem exists_lineage (h : scanner.IsImport entries found nodes) (hv : v ∈ found)
    (hnode : node ∈ nodes) (hmakes : v.Makes scanner node) :
    ∃ above, IsLineage nodes (node :: above) ∧
      ((node :: above).map (·.label)).reverse = v.parts := by
  induction hlength : v.parts.length generalizing v node with
  | zero => exact absurd (List.length_eq_zero_iff.1 hlength) (h.find?_eq hv).1
  | succ length ih =>
      rcases h.parent hv with ⟨name, hparts, hparent, _⟩ | ⟨above, habove, name, hparts, hparent, _⟩
      · refine ⟨[], ⟨hnode, hmakes.parentId_eq.trans hparent, trivial⟩, ?_⟩
        have hlabel : node.label = name := label_eq h hv hmakes (List.nil_append [name] ▸ hparts)
        rw [hparts, ← hlabel]
        rfl
      · rw [hparts, List.length_append, List.length_singleton, Nat.add_right_cancel_iff] at hlength
        obtain ⟨parent, hmem, hparentMakes⟩ := h.exists_node habove
        obtain ⟨rest, hlineage, hnames⟩ := ih habove hmem hparentMakes hlength
        rw [← hparentMakes.id_eq] at hparent
        refine ⟨parent :: rest, ⟨hnode, hmakes.parentId_eq.trans hparent, hlineage⟩, ?_⟩
        rw [List.map_cons, List.reverse_cons, hnames, h.label_eq hv hmakes hparts, hparts]

/-- Every node lies where its folder lies. -/
theorem liesAt (h : scanner.IsImport entries found nodes)
    (hnodes : ∀ node ∈ nodes, node.type ≠ .root ∧ sanitizeLabel node.label = node.label)
    (hv : v ∈ found) (hnode : node ∈ nodes) (hmakes : v.Makes scanner node) :
    LiesAt nodes node v.parts := by
  obtain ⟨above, hlineage, hnames⟩ := h.exists_lineage hv hnode hmakes
  refine ⟨above, hlineage, ?_⟩
  rw [directoryParts_eq_map_label fun node hnode => hnodes node (hlineage.subset hnode), hnames]

/-- What lies somewhere comes from the folder there. -/
theorem exists_visit_of_liesAt (h : scanner.IsImport entries found nodes)
    (hnodes : ∀ node ∈ nodes, node.type ≠ .root ∧ sanitizeLabel node.label = node.label)
    {parts : List String} (hlies : LiesAt nodes node parts) :
    ∃ v ∈ found, v.Makes scanner node ∧ v.parts = parts := by
  obtain ⟨v, hv, hmakes⟩ := h.exists_visit hlies.mem
  exact ⟨v, hv, hmakes, (h.liesAt hnodes hv hlies.mem hmakes).unique h.distinctIds hlies⟩

end Scanner.IsImport

/-! ### Every import -/

section Import

variable {fs : FileSystem} {root : String} {options : LayoutOptions Float} {draw : Nat → String}
  {imported : ImportedGraph}

theorem wellFormed_and_plain_of_list (hwell : fs.root.WellFormed) (hplain : fs.root.FoldersPlain)
    {entries : List (String × FileTree)} (hlist : fs.list root = .ok entries) :
    (FileTree.folder entries).WellFormed ∧ (FileTree.folder entries).FoldersPlain := by
  obtain ⟨names, hfind⟩ := FileSystem.exists_find?_of_list hlist
  exact ⟨hwell.of_find? hfind, hplain.of_find? hfind⟩

/-- The nodes of a scan are those of the folders that are kept, and they stay in their order.  Their
configuration files can be used, unless it says otherwise, its edges are the dependencies that these
files state, and all other files of the folders are attached. -/
theorem exists_found_of_scanTree {output : ScanOutput} {uploads : List Upload}
    (hlisted : ∀ entries, fs.list root = .ok entries →
      (FileTree.folder entries).WellFormed ∧ (FileTree.folder entries).FoldersPlain)
    (hscan : scanTree fs root draw = .ok (output, uploads))
    (hreconstruct : reconstruct output options = .ok imported) :
    ∃ entries found, fs.list root = .ok entries ∧
      output.nodes = found.map (Visit.scannedNode (Scanner.mk root draw) root) ∧
      (Scanner.mk root draw).IsImport entries found imported.graph.nodes ∧
      (imported.faults.toList = [] → ∀ v ∈ found, v.settled.fault = none) ∧
      edgesOf (found.map (Visit.scannedNode (Scanner.mk root draw) root)) []
        (found.flatMap (Visit.references (Scanner.mk root draw) root)) =
          .ok imported.graph.edges ∧
      uploads = (found.flatMap fun v => v.uploads) ∧
      ∀ u ∈ uploads, Attachment.isValidName u.name = true := by
  obtain ⟨entries, found, ids, hlist, hvisits, hyields⟩ := exists_visits_of_scanTree hscan
  have hnodes := Visit.nodes_join_yields (Scanner.mk root draw) root found
  have hdependencies := Visit.dependencies_join_yields (Scanner.mk root draw) root found
  have huploads := Visit.uploads_join_yields (Scanner.mk root draw) root found
  have hfaults := Visit.faults_join_yields (Scanner.mk root draw) root found
  rw [hyields] at hnodes hdependencies huploads hfaults
  simp only at hnodes hdependencies huploads hfaults
  obtain ⟨_, edges, hedges, rfl⟩ := reconstruct_eq_ok_iff.1 hreconstruct
  refine ⟨entries, found, hlist, hnodes, ⟨⟨ids, hvisits⟩, (hlisted entries hlist).1,
    (hlisted entries hlist).2, ?_⟩, fun hfaults v hv => ?_, ?_, huploads, fun u hu => ?_⟩
  · have hlaid := forall₂_layoutNodes options (output.nodes.map (·.node))
    generalize layoutNodes options (output.nodes.map (·.node)) = laid at hlaid ⊢
    rwa [List.forall₂_map_left_iff, hnodes, List.forall₂_map_left_iff] at hlaid
  · by_contra hfault
    have hmem : v.id ∈ (faultsOf output.nodes).keys :=
      mem_keys_faultsOf.2 ⟨_, hnodes ▸ List.mem_map_of_mem hv, rfl, hfault⟩
    rw [SortedMap.keys, hfaults] at hmem
    cases hmem
  · rwa [hnodes, hdependencies] at hedges
  · rw [huploads, List.mem_flatMap] at hu
    obtain ⟨v, hv, hu⟩ := hu
    exact Scanner.refusedUploads_eq_nil_iff.1 (List.flatMap_eq_nil_iff.1 hfaults.symm v hv) u hu

theorem exists_isImport_of_importTree {σ : Type} [AttachmentStore σ] {store kept : σ}
    (hlisted : ∀ entries, fs.list root = .ok entries →
      (FileTree.folder entries).WellFormed ∧ (FileTree.folder entries).FoldersPlain)
    (h : importTree fs root options draw store = (.ok imported, kept)) :
    ∃ entries found, fs.list root = .ok entries ∧
      (Scanner.mk root draw).IsImport entries found imported.graph.nodes ∧
      (imported.faults.toList = [] → ∀ v ∈ found, v.settled.fault = none) ∧
      edgesOf (found.map (Visit.scannedNode (Scanner.mk root draw) root)) []
        (found.flatMap (Visit.references (Scanner.mk root draw) root)) =
          .ok imported.graph.edges := by
  obtain ⟨output, uploads, hscan, _, hreconstruct⟩ := exists_scanTree_of_importTree h
  obtain ⟨entries, found, hlist, _, himport, hfaults, hedges, _⟩ :=
    exists_found_of_scanTree hlisted hscan hreconstruct
  exact ⟨entries, found, hlist, himport, hfaults, hedges⟩

end Import

end InfraGraph
