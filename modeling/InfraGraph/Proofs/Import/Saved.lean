import InfraGraph.Proofs.Graph.Json
import InfraGraph.Proofs.Import.Stability
import InfraGraph.Proofs.Text.Utf8

/-!
# Saved imports

An imported graph is saved as text, and loaded again to generate an archive.  Loading takes the type
of a node from its name.  The names of modules come from the sources in the tree, so a module that
is named like a builtin type comes back as that type.  All other types come back as they were.
-/

namespace InfraGraph

namespace NodeType

/-- The types that aren't modules. -/
def builtin : List NodeType := [root, account, environment, region, zone, tier, folder, file]

theorem ofName_eq_remote_iff {module : String} :
    ofName module = .remote module ↔ module ∉ builtin.map name := by
  unfold ofName
  simp only [builtin, List.map_cons, List.map_nil, name, List.mem_cons, List.not_mem_nil]
  split_ifs <;> simp_all

theorem mem_module? {t : NodeType} {module : String} :
    module ∈ t.module? ↔ t = .remote module := by
  cases t <;> simp [module?]

/-- The name of a type stands for it, unless it is a module that is named like a builtin type. -/
theorem ofName_name_iff {t : NodeType} :
    ofName t.name = t ↔ ∀ module ∈ t.module?, module ∉ builtin.map name := by
  cases t with
  | remote module => simp [module?, name, ofName_eq_remote_iff]
  | _ => exact iff_of_true rfl (by simp [module?])

end NodeType

/-! ### Modules in a tree -/

namespace Scanner

/-- A folder with these files is a module: it has no settings file, and its `terragrunt.hcl` has
the module as its source. -/
structure IsModule (files : List (String × ByteArray)) (module : String) : Prop where
  noSettings : ∀ type ∈ NodeType.settingsTypes, type.outputFileName ∉ files.map (·.1)
  source : ∃ contents config, Entries.find? NodeType.defaultFileName files = some contents ∧
    readConfig contents = .ok config ∧ ModuleSource.name? (config.source.getD "") = some module

theorem IsModule.files_ne_nil {files : List (String × ByteArray)} {module : String}
    (h : IsModule files module) : files ≠ [] := by
  rintro rfl
  obtain ⟨contents, config, hfile, _⟩ := h.source
  cases hfile

/-- Only modules make a folder a module. -/
theorem DecidedBy.eq_remote_iff {files : List (String × ByteArray)} {config? : Option String}
    {type : NodeType} {fault : Option ConfigFault} (h : DecidedBy files config? type fault)
    {module : String} : type = .remote module ↔ IsModule files module := by
  cases h with
  | @settings before after type _ hsplit _ hfile =>
      have hmem : type ∈ NodeType.settingsTypes := by simp [hsplit]
      refine iff_of_false ?_ fun hmodule => hmodule.noSettings type hmem hfile
      rintro rfl
      revert hmem
      simp [NodeType.settingsTypes]
  | @module contents config other hnone hfile hread hname =>
      rw [NodeType.remote.injEq]
      constructor
      · rintro rfl
        exact ⟨hnone, contents, config, hfile, hread, hname⟩
      · rintro ⟨_, contents', config', hfile', hread', hname'⟩
        obtain rfl := Option.some.inj (hfile.symm.trans hfile')
        obtain rfl := Except.ok.inj (hread.symm.trans hread')
        exact Option.some.inj (hname.symm.trans hname')
  | unusable hnone hfile hread =>
      refine iff_of_false (by simp) ?_
      rintro ⟨_, contents', config', hfile', hread', _⟩
      obtain rfl := Option.some.inj (hfile.symm.trans hfile')
      cases hread.symm.trans hread'
  | folder hnone hfile =>
      refine iff_of_false (by simp) ?_
      rintro ⟨_, contents', config', hfile', _, _⟩
      exact hfile (List.mem_map.2 ⟨_, Entries.mem_of_find? hfile', rfl⟩)

end Scanner

/-- A folder below the top of a tree is that module. -/
def FileTree.NamesModule (entries : List (String × FileTree)) (module : String) : Prop :=
  ∃ parts es, parts ≠ [] ∧ (folder entries).find? parts = some (.folder es) ∧
    Scanner.IsModule (plainFiles es) module

namespace Scanner.IsImport

variable {scanner : Scanner} {entries : List (String × FileTree)} {found : List Visit}
  {nodes : List Node}

/-- The modules of an imported graph are those that the tree names. -/
theorem exists_remote_iff (h : scanner.IsImport entries found nodes) {module : String} :
    (∃ node ∈ nodes, node.type = .remote module) ↔ FileTree.NamesModule entries module := by
  constructor
  · rintro ⟨node, hnode, htype⟩
    obtain ⟨v, hv, hmakes⟩ := h.exists_visit hnode
    exact ⟨v.parts, v.entries, (h.find?_eq hv).1, (h.find?_eq hv).2,
      (h.decidedBy hv).eq_remote_iff.1 (hmakes.type_eq.symm.trans htype)⟩
  · rintro ⟨parts, es, hparts, hfind, hmodule⟩
    obtain ⟨ids, hvisits⟩ := h.visits
    obtain ⟨name, more, rfl⟩ := List.exists_cons_of_ne_nil hparts
    obtain ⟨item, hitem, _, hmore⟩ := exists_item_of_find? hfind []
    obtain ⟨v, hv, _, rfl⟩ := hvisits.exists_visit item hitem more es hmore
      ⟨[], es, FileTree.find?_nil _, hmodule.files_ne_nil⟩
    obtain ⟨node, hnode, hmakes⟩ := h.exists_node hv
    exact ⟨node, hnode, hmakes.type_eq.trans ((h.decidedBy hv).eq_remote_iff.2 hmodule)⟩

end Scanner.IsImport

/-! ### Loading what was saved -/

/-- What is loaded from the bytes of a saved graph. -/
def Graph.loaded? (g : Graph) : Option Graph :=
  (String.fromUTF8? g.toJson.prettyText.toUTF8).bind parse?

theorem Graph.loaded?_eq_some_iff {g loaded : Graph} :
    g.loaded? = some loaded ↔
      List.Forall₂ (fun n r : Node => n.depth ≤ Node.maxDepth ∧ n.IsReadAs r) g.nodes
        loaded.nodes ∧ loaded.edges = g.edges := by
  rw [loaded?, fromUTF8?_toUTF8, Option.bind_some, parse?_prettyText]

/-- The depth of the node fits, and its coordinates are finite. -/
@[mk_iff]
structure Node.IsSavable (n : Node) : Prop where
  depth : n.depth ≤ maxDepth
  x : Decimal.isFinite n.position.x = true
  y : Decimal.isFinite n.position.y = true
  width : Decimal.isFinite n.size.width = true
  height : Decimal.isFinite n.size.height = true

instance (n : Node) : Decidable n.IsSavable :=
  decidable_of_iff' _ n.isSavable_iff

/-- The savable nodes are those that can be read back. -/
theorem Node.isSavable_iff_exists {n : Node} :
    n.IsSavable ↔ ∃ read : Node, n.depth ≤ maxDepth ∧ n.IsReadAs read := by
  simp only [isSavable_iff, ← Json.exists_float?_ofFloat_iff]
  constructor
  · rintro ⟨hdepth, ⟨x, hx⟩, ⟨y, hy⟩, ⟨width, hwidth⟩, ⟨height, hheight⟩⟩
    exact ⟨{ n with type := NodeType.ofName n.type.name, position := ⟨x, y⟩,
                    size := ⟨width, height⟩ },
      hdepth, rfl, rfl, rfl, rfl, rfl, rfl, rfl, rfl, ⟨hx, hy⟩, ⟨hwidth, hheight⟩⟩
  · rintro ⟨read, hdepth, h⟩
    exact ⟨hdepth, ⟨_, h.position.x⟩, ⟨_, h.position.y⟩, ⟨_, h.size.width⟩, ⟨_, h.size.height⟩⟩

/-- A list has a partner if all of its elements have. -/
theorem exists_forall₂_iff {α β : Type} {R : α → β → Prop} {l : List α} :
    (∃ m, List.Forall₂ R l m) ↔ ∀ a ∈ l, ∃ b, R a b := by
  induction l with
  | nil => exact iff_of_true ⟨[], .nil⟩ (by simp)
  | cons a l ih =>
      rw [List.forall_mem_cons, ← ih]
      constructor
      · rintro ⟨_ | ⟨b, m⟩, h⟩
        · cases h
        · exact ⟨⟨b, (List.forall₂_cons.1 h).1⟩, m, (List.forall₂_cons.1 h).2⟩
      · rintro ⟨⟨b, hb⟩, m, hm⟩
        exact ⟨b :: m, .cons hb hm⟩

/-- The types of the nodes that are loaded. -/
theorem Graph.map_type_of_loaded? {g loaded : Graph} (h : g.loaded? = some loaded) :
    loaded.nodes.map (·.type) = g.nodes.map fun node => NodeType.ofName node.type.name :=
  (map_eq_map_of_forall₂ ((loaded?_eq_some_iff.1 h).1.imp fun _ _ hread => hread.2.type.symm)).symm

theorem Graph.exists_loaded?_iff {g : Graph} :
    (∃ loaded, g.loaded? = some loaded) ↔ ∀ node ∈ g.nodes, node.IsSavable := by
  simp only [Node.isSavable_iff_exists, ← exists_forall₂_iff, loaded?_eq_some_iff]
  constructor
  · rintro ⟨loaded, hnodes, _⟩
    exact ⟨loaded.nodes, hnodes⟩
  · rintro ⟨nodes, hnodes⟩
    exact ⟨⟨nodes, g.edges⟩, hnodes, rfl⟩

section Import

variable {σ : Type} [AttachmentStore σ] {fs : FileSystem} {root : String}
  {options : LayoutOptions Float} {draw : Nat → String} {store kept : σ}
  {imported : ImportedGraph}

/-- An imported graph can be saved and loaded as long as its depths fit and its coordinates are
finite.  All edges and all types are loaded as they were, but for modules that are named like
builtin types; so the types stay the same exactly if the tree names no such module. -/
theorem importTree_isLoaded (hwell : fs.root.WellFormed) (hplain : fs.root.FoldersPlain)
    (h : importTree fs root options draw store = (.ok imported, kept)) :
    ∃ entries, fs.list root = .ok entries ∧
      ((∃ loaded, imported.graph.loaded? = some loaded) ↔
        ∀ node ∈ imported.graph.nodes, node.IsSavable) ∧
      ∀ loaded, imported.graph.loaded? = some loaded →
        List.Forall₂ (fun node again : Node => node.IsReadAs again ∧ (again.type = node.type ↔
            ∀ module ∈ node.type.module?, module ∉ NodeType.builtin.map NodeType.name))
          imported.graph.nodes loaded.nodes ∧
        loaded.edges = imported.graph.edges ∧
        (loaded.nodes.map (·.type) = imported.graph.nodes.map (·.type) ↔
          ∀ module, FileTree.NamesModule entries module →
            module ∉ NodeType.builtin.map NodeType.name) := by
  obtain ⟨entries, found, hlist, himport, _, _⟩ := exists_isImport hwell hplain h
  refine ⟨entries, hlist, Graph.exists_loaded?_iff, fun loaded hloaded => ?_⟩
  obtain ⟨hnodes, hedges⟩ := Graph.loaded?_eq_some_iff.1 hloaded
  have hkept : List.Forall₂ (fun node again : Node => node.IsReadAs again ∧
      (again.type = node.type ↔ ∀ module ∈ node.type.module?,
        module ∉ NodeType.builtin.map NodeType.name)) imported.graph.nodes loaded.nodes := by
    refine hnodes.imp fun node again ⟨_, hread⟩ => ⟨hread, ?_⟩
    rw [hread.type, NodeType.ofName_name_iff]
  refine ⟨hkept, hedges, ?_⟩
  rw [Graph.map_type_of_loaded? hloaded, List.map_inj_left]
  simp only [NodeType.ofName_name_iff, ← himport.exists_remote_iff, NodeType.mem_module?]
  exact ⟨fun hall module ⟨node, hnode, htype⟩ => hall node hnode module htype,
    fun hall node hnode module htype => hall module ⟨node, hnode, htype⟩⟩

end Import

/-- The graph of a tree with all levels of settings and a module can be loaded like any other. -/
theorem FlatTree.isLoaded_tree : tree.root.WellFormed ∧ tree.root.FoldersPlain ∧
    ∃ imported kept entries, importTree tree "/" .standard (NodeIds.ofSeed "") MemoryStore.empty =
        (.ok imported, kept) ∧
      tree.list "/" = .ok entries ∧
      ((∃ loaded, imported.graph.loaded? = some loaded) ↔
        ∀ node ∈ imported.graph.nodes, node.IsSavable) ∧
      ∀ loaded, imported.graph.loaded? = some loaded →
        List.Forall₂ (fun node again : Node => node.IsReadAs again ∧ (again.type = node.type ↔
            ∀ module ∈ node.type.module?, module ∉ NodeType.builtin.map NodeType.name))
          imported.graph.nodes loaded.nodes ∧
        loaded.edges = imported.graph.edges ∧
        (loaded.nodes.map (·.type) = imported.graph.nodes.map (·.type) ↔
          ∀ module, FileTree.NamesModule entries module →
            module ∉ NodeType.builtin.map NodeType.name) := by
  have hplain : tree.root.FoldersPlain := (FileTree.foldersPlain_iff wellFormed_tree).2 (by decide)
  obtain ⟨imported, kept, _, _, himport, _⟩ := exists_of_unpacks unpacks_and_changes.1.1
  obtain ⟨entries, h⟩ := importTree_isLoaded wellFormed_tree hplain himport
  exact ⟨wellFormed_tree, hplain, imported, kept, entries, himport, h⟩

namespace ModuleFolder

/-- A module with the name of the type of folders. -/
def moduleText : String :=
  "terraform \x7b\n  source = \"tg-modules//Folder\"\n\x7d\n"

def tree : FileSystem :=
  ⟨.folder [
    ("network", .folder [("terragrunt.hcl", .file moduleText.toUTF8)]),
    ("terragrunt.hcl", .file ByteArray.empty)], []⟩

/-- The types of the nodes of an import that can be saved. -/
def savableTypes? : Except GraphError ImportedGraph × MemoryStore → Option (List NodeType)
  | (.ok imported, _) =>
    if ∀ node ∈ imported.graph.nodes, node.IsSavable then
      some (imported.graph.nodes.map (·.type))
    else none
  | (.error _, _) => none

theorem exists_of_savableTypes? {result : Except GraphError ImportedGraph × MemoryStore}
    {types : List NodeType} (h : savableTypes? result = some types) :
    ∃ imported kept loaded, result = (.ok imported, kept) ∧
      imported.graph.loaded? = some loaded ∧ imported.graph.nodes.map (·.type) = types := by
  obtain ⟨_ | imported, kept⟩ := result
  · cases h
  · rw [savableTypes?, Option.ite_none_right_eq_some] at h
    obtain ⟨hsavable, htypes⟩ := h
    obtain ⟨loaded, hloaded⟩ := Graph.exists_loaded?_iff.2 hsavable
    exact ⟨imported, kept, loaded, rfl, hloaded, Option.some.inj htypes⟩

/-- The module is imported, and is a folder when it is loaded. -/
theorem not_sameTypes_tree : ∃ imported kept loaded,
    importTree tree "/" .standard (NodeIds.ofSeed "") MemoryStore.empty = (.ok imported, kept) ∧
      imported.graph.loaded? = some loaded ∧
      imported.graph.nodes.map (·.type) = [.remote "Folder"] ∧
      loaded.nodes.map (·.type) = [.folder] := by
  have hsavable : savableTypes? (importTree tree "/" .standard (NodeIds.ofSeed "")
      MemoryStore.empty) = some [.remote "Folder"] := by
    decide +kernel
  obtain ⟨imported, kept, loaded, himport, hloaded, htypes⟩ := exists_of_savableTypes? hsavable
  refine ⟨imported, kept, loaded, himport, hloaded, htypes, ?_⟩
  calc loaded.nodes.map (·.type)
      = (imported.graph.nodes.map (·.type)).map fun type => NodeType.ofName type.name := by
        rw [Graph.map_type_of_loaded? hloaded, List.map_map]
        rfl
    _ = [.folder] := by
        rw [htypes]
        rfl

end ModuleFolder

end InfraGraph
