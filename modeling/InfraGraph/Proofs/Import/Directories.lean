import InfraGraph.Proofs.Import.Restorable

/-!
# Directories of imported nodes

A scan sees the directory of a node in the tree.  Once it is imported, the directory is put together
from its label and those of the nodes above it, where characters that can't stand in the name of a
directory are changed.  Names without quotes and backslashes stay as they are, so then every node
keeps the directory where it was found.
-/

namespace InfraGraph

/-! ### Names that stay as they are -/

/-- A label without quotes and slashes of either kind is the name of its directory. -/
theorem sanitizeLabel_eq_self {label : String} (hquote : '"' ∉ label.toList)
    (hslash : '/' ∉ label.toList) (hbackslash : '\\' ∉ label.toList) :
    sanitizeLabel label = label := by
  have hfilter : label.toList.filter (· ≠ '"') = label.toList :=
    List.filter_eq_self.2 fun c hc => by simpa using ne_of_mem_of_not_mem hc hquote
  have hmap : label.toList.map (fun c => if c = '/' ∨ c = '\\' then '_' else c) =
      label.toList := by
    refine (List.map_congr_left fun c hc => ?_).trans (List.map_id _)
    exact if_neg fun hc' => hc'.elim (ne_of_mem_of_not_mem hc hslash)
      (ne_of_mem_of_not_mem hc hbackslash)
  rw [sanitizeLabel, hfilter, hmap, String.ofList_toList]

/-- No folder in the tree has a double quote or a backslash in its name. -/
def FileTree.FoldersUnquoted (t : FileTree) : Prop :=
  ∀ parts es, t.find? parts = some (.folder es) →
    ∀ name ∈ parts, '"' ∉ name.toList ∧ '\\' ∉ name.toList

theorem FileTree.foldersUnquoted_iff {t : FileTree} (h : t.WellFormed) :
    t.FoldersUnquoted ↔ ∀ place ∈ foldersIn [] t, ∀ name ∈ place.1,
      '"' ∉ name.toList ∧ '\\' ∉ name.toList :=
  forall_folder_iff h (p := fun parts => ∀ name ∈ parts, '"' ∉ name.toList ∧ '\\' ∉ name.toList)

namespace Scanner

/-- No configuration file makes a folder the top of a tree. -/
theorem DecidedBy.ne_root {files : List (String × ByteArray)} {config? : Option String}
    {type : NodeType} {fault : Option ConfigFault} (h : DecidedBy files config? type fault) :
    type ≠ .root := by
  cases h with
  | @settings before after type _ hsplit _ _ =>
      exact (NodeType.settled_of_settings type (by simp [hsplit])).2.1
  | _ => simp

namespace IsImport

variable {scanner : Scanner} {entries : List (String × FileTree)} {found : List Visit}
  {nodes : List Node} {v : Visit} {node : Node}

theorem type_ne_root (h : scanner.IsImport entries found nodes) (hnode : node ∈ nodes) :
    node.type ≠ .root := by
  obtain ⟨v, hv, hmakes⟩ := h.exists_visit hnode
  exact hmakes.type_eq ▸ (h.decidedBy hv).ne_root

theorem exists_front (h : scanner.IsImport entries found nodes) (hv : v ∈ found)
    (hmakes : v.Makes scanner node) : ∃ front, v.parts = front ++ [node.label] := by
  obtain ⟨front, name, hparts⟩ :=
    (List.eq_nil_or_concat' v.parts).resolve_left (h.find?_eq hv).1
  exact ⟨front, by rw [hparts, h.label_eq hv hmakes hparts]⟩

theorem isPlain_label (h : scanner.IsImport entries found nodes) (hnode : node ∈ nodes) :
    Path.IsPlain node.label := by
  obtain ⟨v, hv, hmakes⟩ := h.exists_visit hnode
  obtain ⟨front, hparts⟩ := h.exists_front hv hmakes
  exact h.isPlain hv _ (by simp [hparts])

theorem sanitizeLabel_label (h : scanner.IsImport entries found nodes)
    (hnames : (FileTree.folder entries).FoldersUnquoted) (hnode : node ∈ nodes) :
    sanitizeLabel node.label = node.label := by
  obtain ⟨v, hv, hmakes⟩ := h.exists_visit hnode
  obtain ⟨front, hparts⟩ := h.exists_front hv hmakes
  obtain ⟨hquote, hbackslash⟩ := hnames _ _ (h.find?_eq hv).2 node.label (by simp [hparts])
  exact sanitizeLabel_eq_self hquote (h.isPlain_label hnode).no_slash hbackslash

theorem exists_resolvePaths (h : scanner.IsImport entries found nodes)
    (hlabels : ∀ node ∈ nodes, sanitizeLabel node.label = node.label) :
    ∃ paths, resolvePaths nodes = .ok paths := by
  refine (exists_resolvePaths_eq_ok_iff h.distinctIds).2 fun node parts hlies => .inr ?_
  have hplain := h.isPlain_label hlies.mem
  rw [hlabels node hlies.mem]
  exact isUsableName_iff.2 ⟨hplain.ne_empty, hplain.ne_dot, hplain.ne_dotDot⟩

section Resolved

variable {paths : PathMap}

/-- Every node keeps the directory where it was found. -/
theorem find?_paths (h : scanner.IsImport entries found nodes)
    (hlabels : ∀ node ∈ nodes, sanitizeLabel node.label = node.label)
    (hpaths : resolvePaths nodes = .ok paths) (hv : v ∈ found) (hnode : node ∈ nodes)
    (hmakes : v.Makes scanner node) :
    paths.find? node.id = some (v.path scanner scanner.root) := by
  refine (find?_resolvePaths h.distinctIds hpaths).2
    ⟨node, v.parts, h.type_ne_root hnode, rfl, ?_, h.path_eq hv⟩
  exact h.liesAt (fun node hnode => ⟨h.type_ne_root hnode, hlabels node hnode⟩) hv hnode hmakes

/-- No two nodes share a directory. -/
theorem ensureUnique_paths (h : scanner.IsImport entries found nodes)
    (hlabels : ∀ node ∈ nodes, sanitizeLabel node.label = node.label)
    (hpaths : resolvePaths nodes = .ok paths) : ensureUnique paths = .ok () := by
  rw [ensureUnique_eq_ok_iff, SortedMap.values_nodup_iff]
  intro id id' path hid hid'
  obtain ⟨node, parts, _, rfl, hlies, rfl⟩ := (find?_resolvePaths h.distinctIds hpaths).1 hid
  obtain ⟨node', parts', _, rfl, hlies', hsame⟩ :=
    (find?_resolvePaths h.distinctIds hpaths).1 hid'
  have hnodes : ∀ node ∈ nodes, node.type ≠ .root ∧ sanitizeLabel node.label = node.label :=
    fun node hnode => ⟨h.type_ne_root hnode, hlabels node hnode⟩
  obtain ⟨v, hv, hmakes, rfl⟩ := h.exists_visit_of_liesAt hnodes hlies
  obtain ⟨v', hv', hmakes', rfl⟩ := h.exists_visit_of_liesAt hnodes hlies'
  obtain rfl := h.eq_of_parts_eq hv hv'
    (Path.unsplit_inj (h.isPlain hv) (h.isPlain hv') hsame)
  exact hmakes.id_eq.trans hmakes'.id_eq.symm

theorem exists_node_of_mem_keys (h : scanner.IsImport entries found nodes)
    (hpaths : resolvePaths nodes = .ok paths) {id : String} (hid : id ∈ paths.keys) :
    ∃ node ∈ nodes, node.id = id := by
  obtain ⟨path, hfind⟩ := SortedMap.mem_keys_iff.1 hid
  obtain ⟨node, _, _, hid, hlies, _⟩ := (find?_resolvePaths h.distinctIds hpaths).1 hfind
  exact ⟨node, hlies.mem, hid⟩

end Resolved

theorem forall₂_mem (h : scanner.IsImport entries found nodes) :
    List.Forall₂ (fun v node => node ∈ nodes ∧ v ∈ found ∧ v.Makes scanner node) found nodes := by
  have hfound : List.Forall₂ (fun v node => v ∈ found ∧ v.Makes scanner node) found nodes :=
    (List.forall₂_and_left _ _).2 ⟨fun _ hv => hv, h.makes⟩
  exact ((List.forall₂_and_left _ _).2 ⟨fun _ hnode => hnode, hfound.flip⟩).flip

end IsImport

end Scanner

/-! ### Importing -/

/-- The directory of the node is that of a folder in the tree. -/
def ScannedNode.IsIn (n : ScannedNode) (entries : List (String × FileTree)) : Prop :=
  ∃ parts es, parts ≠ [] ∧ (FileTree.folder entries).find? parts = some (.folder es) ∧
    n.path = Path.unsplit parts

/-- Where no name of a folder has a quote or a backslash in it, the nodes of an imported graph have
the directories in which the scan found them, and no two share one. -/
theorem importTree_keepsDirectories {σ : Type} [AttachmentStore σ] {fs : FileSystem}
    {root : String} {options : LayoutOptions Float} {draw : Nat → String} {store kept : σ}
    {imported : ImportedGraph} (hwell : fs.root.WellFormed) (hplain : fs.root.FoldersPlain)
    (hnames : ∀ entries, fs.list root = .ok entries →
      (FileTree.folder entries).FoldersUnquoted)
    (h : importTree fs root options draw store = (.ok imported, kept)) :
    ∃ entries output uploads paths, fs.list root = .ok entries ∧
      scanTree fs root draw = .ok (output, uploads) ∧
      resolvePaths imported.graph.nodes = .ok paths ∧ ensureUnique paths = .ok () ∧
      List.Forall₂ (fun n node => node.id = n.node.id ∧
        paths.find? node.id = some n.path ∧ n.IsIn entries) output.nodes imported.graph.nodes ∧
      ∀ id ∈ paths.keys, ∃ node ∈ imported.graph.nodes, node.id = id := by
  obtain ⟨output, uploads, hscan, _, hreconstruct⟩ := exists_scanTree_of_importTree h
  obtain ⟨entries, found, hlist, hnodes, himport, _⟩ :=
    exists_found_of_scanTree (fun _ => wellFormed_and_plain_of_list hwell hplain) hscan
      hreconstruct
  have hlabels : ∀ node ∈ imported.graph.nodes, sanitizeLabel node.label = node.label :=
    fun node => himport.sanitizeLabel_label (hnames entries hlist)
  obtain ⟨paths, hpaths⟩ := himport.exists_resolvePaths hlabels
  refine ⟨entries, output, uploads, paths, hlist, hscan, hpaths,
    himport.ensureUnique_paths hlabels hpaths, ?_,
    fun id => himport.exists_node_of_mem_keys hpaths⟩
  rw [hnodes, List.forall₂_map_left_iff]
  refine himport.forall₂_mem.imp fun v node hmakes => ?_
  obtain ⟨hnode, hv, hmakes⟩ := hmakes
  exact ⟨hmakes.id_eq, himport.find?_paths hlabels hpaths hv hnode hmakes,
    v.parts, v.entries, (himport.find?_eq hv).1, (himport.find?_eq hv).2, himport.path_eq hv⟩

namespace TwoRegions

/-- Folders with the same name in two regions, and one that is left out. -/
def tree : FileSystem :=
  ⟨.folder [
    ("live", .folder [
      ("account.hcl", .file ByteArray.empty),
      ("drafts", .folder [("vpc", .folder [])]),
      ("east", .folder [
        ("region.hcl", .file ByteArray.empty),
        ("vpc", .folder [("tier.hcl", .file ByteArray.empty)])]),
      ("west", .folder [("vpc", .folder [("tier.hcl", .file
        "dependency \"vpc\" \x7b config_path = \"../../east/vpc\" \x7d\n".toUTF8)])])]),
    ("terragrunt.hcl", .file ByteArray.empty)], []⟩

theorem wellFormed_tree : tree.root.WellFormed := by
  simp only [tree, FileTree.WellFormed, FileTree.AllWellFormed, Entries.Ascending, and_true,
    true_and]
  decide

/-- All nodes of the tree keep their directories. -/
theorem keepsDirectories_tree : tree.root.WellFormed ∧ tree.root.FoldersPlain ∧
    (∀ entries, tree.list "/" = .ok entries → (FileTree.folder entries).FoldersUnquoted) ∧
    ∃ imported kept, importTree tree "/" .standard (NodeIds.ofSeed "") MemoryStore.empty =
        (.ok imported, kept) ∧
      ∃ entries output uploads paths, tree.list "/" = .ok entries ∧
        scanTree tree "/" (NodeIds.ofSeed "") = .ok (output, uploads) ∧
        resolvePaths imported.graph.nodes = .ok paths ∧ ensureUnique paths = .ok () ∧
        List.Forall₂ (fun n node => node.id = n.node.id ∧
          paths.find? node.id = some n.path ∧ n.IsIn entries) output.nodes
            imported.graph.nodes ∧
        ∀ id ∈ paths.keys, ∃ node ∈ imported.graph.nodes, node.id = id := by
  have hplain : tree.root.FoldersPlain := (FileTree.foldersPlain_iff wellFormed_tree).2 (by decide)
  have hnames : ∀ entries, tree.list "/" = .ok entries →
      (FileTree.folder entries).FoldersUnquoted := by
    intro entries hlist
    obtain rfl := Except.ok.inj hlist
    exact (FileTree.foldersUnquoted_iff wellFormed_tree).2 (by decide)
  have hok : (importTree tree "/" .standard (NodeIds.ofSeed "") MemoryStore.empty).1.isOk =
      true := by
    decide +kernel
  obtain ⟨imported, kept, himport⟩ := exists_ok_of_isOk_fst hok
  exact ⟨wellFormed_tree, hplain, hnames, imported, kept, himport,
    importTree_keepsDirectories wellFormed_tree hplain hnames himport⟩

end TwoRegions

end InfraGraph
