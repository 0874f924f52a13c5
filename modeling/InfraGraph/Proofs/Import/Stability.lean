import InfraGraph.Proofs.Import.Writable

/-!
# Imported graphs are stable

What was imported without faults can be generated, unpacked and imported again, and is the same
graph as before.  Names of directories have to stay as they are when they are labels, and texts have
to come back from configuration files; everything else follows from the graph being an imported one.
-/

namespace InfraGraph

open Hcl (IsVerbatim IsIdentifier Expression)

/-! ### What imported nodes say -/

/-- No module is without a name. -/
theorem ModuleSource.ne_empty_of_name? {source module : String} (h : name? source = some module) :
    module ≠ "" := by
  unfold name? at h
  split at h
  · cases h
  · simp only at h
    split at h
    · cases h
    · rename_i hne
      obtain rfl := Option.some.inj h
      intro hempty
      rw [← String.toList_eq_nil_iff, String.toList_ofList] at hempty
      exact hne hempty

theorem Scanner.DecidedBy.ne_empty {files : List (String × ByteArray)} {config? : Option String}
    {type : NodeType} {fault : Option ConfigFault} (h : DecidedBy files config? type fault) :
    ∀ module ∈ type.module?, module ≠ "" := by
  cases h with
  | @settings before after type _ hsplit _ _ =>
      have hnone : ∀ type ∈ NodeType.settingsTypes, type.module? = none := by
        decide
      rw [hnone type (hsplit ▸ List.mem_append_right _ List.mem_cons_self)]
      rintro module ⟨⟩
  | module _ _ _ hmodule =>
      rintro module ⟨⟩
      exact ModuleSource.ne_empty_of_name? hmodule
  | unusable _ _ _ => rintro module ⟨⟩
  | folder _ _ => rintro module ⟨⟩

namespace Scanner.IsImport

variable {scanner : Scanner} {entries : List (String × FileTree)} {found : List Visit}
  {nodes : List Node}

theorem isIdentifier_locals (h : scanner.IsImport entries found nodes) :
    ∀ node ∈ nodes, ∀ key ∈ node.locals.keys, IsIdentifier key.toList := by
  intro node hnode
  obtain ⟨v, hv, position, size, rfl⟩ := h.exists_visit hnode
  obtain ⟨ids, hvisits⟩ := h.visits
  intro key hkey
  change key ∈ ((v.settled.config.map ParsedConfig.locals).getD SortedMap.empty).keys at hkey
  cases hconfig : v.settled.config with
  | none =>
      rw [hconfig] at hkey
      cases hkey
  | some config =>
      rw [hconfig] at hkey
      obtain ⟨text, hparse⟩ := exists_parse_of_settleFolder (hvisits.settleFolder v hv) hconfig
      exact ParsedConfig.isIdentifier_of_mem_locals hparse key hkey

theorem module_ne_empty (h : scanner.IsImport entries found nodes) :
    ∀ node ∈ nodes, ∀ module ∈ node.type.module?, module ≠ "" := by
  intro node hnode
  obtain ⟨v, hv, position, size, rfl⟩ := h.exists_visit hnode
  exact (h.decidedBy hv).ne_empty

end Scanner.IsImport

/-! ### Importing again -/

section Again

variable {σ : Type} [AttachmentStore σ] {moduleBase : String} {fs fs' unpacked : FileSystem}
  {root : String} {here : List String} {options : LayoutOptions Float} {draw draw' : Nat → String}
  {store kept : σ} {imported : ImportedGraph} {archive : Archive}

/-- A graph that was imported without faults comes back from its own tree.  Directories have names
that are labels as they are, and ids that come from them; every text of the graph can be written as
it is; and the base of the sources ends in the only marker in it. -/
theorem importTree_isStable (hwell : fs.root.WellFormed) (hplain : fs.root.FoldersPlain)
    (himport : importTree fs root options draw store = (.ok imported, kept))
    (hfaults : imported.faults.toList = [])
    (hlabels : ∀ node ∈ imported.graph.nodes, sanitizeLabel node.label = node.label)
    (hpathIds : imported.graph.HasPathIds) (hwritable : imported.graph.IsWritable)
    (hbase : ModuleSource.IsBase moduleBase) (hverbatim : IsVerbatim moduleBase.toList)
    (harchive : Archive.ofGraph kept moduleBase imported.graph = .ok archive)
    (hhere : ∀ name ∈ here, Path.IsPlain name) (hempty : fs'.root.find? here = some (.folder []))
    (hunpack : archive.unpack (Path.absolute here) fs' = .ok unpacked) :
    ∃ again kept', importTree unpacked (Path.absolute here) options draw' MemoryStore.empty =
        (.ok again, kept') ∧ imported.graph.IsSame kept again kept' := by
  obtain ⟨entries, found, _, hfirst, _, _⟩ := exists_isImport hwell hplain himport
  exact exists_isSame_of_readsBack hwell hplain himport hfaults hpathIds hlabels
    (fun paths hpaths node path dependencies hplaced _ hdependencies =>
      hwritable.readsBack hfirst.distinctIds hbase hverbatim hfirst.isIdentifier_locals
        hfirst.module_ne_empty hpaths hplaced hdependencies)
    harchive hhere hempty hunpack

end Again

namespace FlatTree

open TwoModules (emptyWork)

/-- The configuration file of a module. -/
def moduleText : String :=
  "terraform \x7b\n  source = \"tg-modules//vpc\"\n\x7d\n" ++
    "inputs = \x7b\n  size = \"a $$\x7bsize\x7d\"\n  zones = [\"b\", local.zone]\n" ++
    "  tags = \x7b count = 3 \x7d\n\x7d\n"

/-- Settings that depend on the module. -/
def tierText : String :=
  "locals \x7b\n  size = \"a $$\x7bsize\x7d\"\n\x7d\n" ++
    "dependency \"vpc\" \x7b config_path = \"../network\" \x7d\n"

/-- All levels of settings beside each other, and a module. -/
def entries : List (String × FileTree) :=
  [("acme", .folder [("account.hcl", .file ByteArray.empty)]),
   ("east", .folder [("region.hcl", .file ByteArray.empty)]),
   ("inner", .folder [("zone.hcl", .file ByteArray.empty)]),
   ("network", .folder [("terragrunt.hcl", .file moduleText.toUTF8)]),
   ("prod", .folder [("env.hcl", .file ByteArray.empty)]),
   ("terragrunt.hcl", .file ByteArray.empty),
   ("web", .folder [("tier.hcl", .file tierText.toUTF8)])]

def tree : FileSystem :=
  ⟨.folder entries, []⟩

/-- The values in the files. -/
def values : List Expression :=
  [.string "a $\x7bsize\x7d", .array [.string "b", .reference "local" ["zone"]],
    .object ([(.ofName "count", .number (.integer 3))].map fun item =>
      (Hcl.Key.ofExpression item.1, item.2))]

theorem isPlain_of_mem_values : ∀ e ∈ values, e.IsPlain := by
  have hreference : (Expression.reference "local" ["zone"]).IsPlain :=
    .reference (by decide) (by decide)
  have hinteger : (Expression.number (.integer 3)).IsPlain := .integer (by decide) (by decide)
  have hkey : (Expression.ofName "count").IsPlainKey := .name (by decide) (by decide)
  simp only [values, List.forall_mem_cons]
  refine ⟨.string _, .array (by simp) ?_, .object (by simp) ?_ (by simp) ?_, by simp⟩
  · simp only [List.forall_mem_cons]
    exact ⟨.string _, hreference, by simp⟩
  · simpa using hkey
  · simpa using hinteger

/-- Every text of a graph is one of a few that can be written as they are. -/
def HasPlainTexts (g : Graph) : Prop :=
  (∀ node ∈ g.nodes, sanitizeLabel node.label = node.label ∧ IsVerbatim node.label.toList) ∧
    (∀ node ∈ g.nodes, ∀ entry ∈ node.locals.toList, entry.2 ∈ values.map Expression.text) ∧
    (∀ node ∈ g.nodes, ∀ entry ∈ node.inputs.toList,
      entry.1 ∈ ["size", "zones", "tags"] ∧ entry.2 ∈ values.map Expression.text) ∧
    (∀ node ∈ g.nodes, ∀ module ∈ node.type.module?, module = "vpc") ∧
    ∀ edge ∈ g.edges, ∀ name ∈ edge.dependencyName, name = "vpc"

instance : DecidablePred HasPlainTexts := fun _ => inferInstanceAs (Decidable (_ ∧ _))

theorem HasPlainTexts.isWritable {g : Graph} (h : HasPlainTexts g) : g.IsWritable := by
  obtain ⟨hlabels, hlocals, hinputs, hmodules, hnames⟩ := h
  have hvalue : ∀ text ∈ values.map Expression.text, Hcl.IsValueText text :=
    List.forall_mem_map.2 fun e he => Hcl.isValueText_text (isPlain_of_mem_values e he)
  have hkey : ∀ key ∈ ["size", "zones", "tags"], IsIdentifier key.toList ∧ key ≠ "for" := by
    decide
  refine ⟨fun node hnode entry hentry => hvalue _ (hlocals node hnode entry hentry),
    fun node hnode entry hentry => ?_, fun node hnode module hmodule => ?_,
    fun edge hedge name hname => ?_, fun edge _ node parts hlies _ => ?_⟩
  · obtain ⟨hmem, hsaid⟩ := hinputs node hnode entry hentry
    obtain ⟨hidentifier, hfor⟩ := hkey _ hmem
    exact ⟨Hcl.isKeyText_of_isIdentifier hidentifier hfor, hvalue _ hsaid⟩
  · rw [hmodules node hnode module hmodule]
    decide
  · rw [hnames edge hedge name hname]
    decide
  · refine hlies.forall_parts fun node hnode => ?_
    rw [(hlabels node hnode).1]
    exact (hlabels node hnode).2

/-- A graph was imported, and its archive can be unpacked. -/
def unpacks : Except GraphError ImportedGraph × MemoryStore → Bool
  | (.ok imported, kept) =>
    imported.faults.toList = [] && HasPlainTexts imported.graph &&
      match Archive.ofGraph kept ModuleSource.marker imported.graph with
      | .ok archive => (archive.unpack (Path.absolute ["work"]) emptyWork).isOk
      | .error _ => false
  | (.error _, _) => false

theorem exists_of_unpacks {result : Except GraphError ImportedGraph × MemoryStore}
    (h : unpacks result = true) : ∃ imported kept archive unpacked,
      result = (.ok imported, kept) ∧ imported.faults.toList = [] ∧
        HasPlainTexts imported.graph ∧
        Archive.ofGraph kept ModuleSource.marker imported.graph = .ok archive ∧
        archive.unpack (Path.absolute ["work"]) emptyWork = .ok unpacked := by
  obtain ⟨_ | imported, kept⟩ := result
  · cases h
  · rw [unpacks, Bool.and_eq_true, Bool.and_eq_true, decide_eq_true_eq, decide_eq_true_eq] at h
    obtain ⟨⟨hfaults, htexts⟩, h⟩ := h
    split at h
    · rename_i archive harchive
      cases hunpack : archive.unpack (Path.absolute ["work"]) emptyWork with
      | error e =>
          rw [hunpack] at h
          cases h
      | ok unpacked =>
          exact ⟨imported, kept, archive, unpacked, rfl, hfaults, htexts, harchive, hunpack⟩
    · cases h

end FlatTree

namespace QuotedFolder

open TwoModules (emptyWork)

/-- Two dependencies on one directory, not in the order of their names. -/
def accountText : String :=
  "dependency \"z\" \x7b config_path = \"../e\" \x7d\n" ++
    "dependency \"b\" \x7b config_path = \"../e\" \x7d\n"

/-- All levels of settings beside each other, one in a directory with a quote in its name. -/
def tree : FileSystem :=
  ⟨.folder [
    ("a", .folder [("account.hcl", .file accountText.toUTF8)]),
    ("e", .folder [("env.hcl", .file ByteArray.empty)]),
    ("r", .folder [("region.hcl", .file ByteArray.empty)]),
    ("t\"r", .folder [("tier.hcl", .file ByteArray.empty)]),
    ("terragrunt.hcl", .file ByteArray.empty),
    ("z", .folder [("zone.hcl", .file ByteArray.empty)])], []⟩

/-- A graph was imported, and is imported again with other labels and another edge. -/
def changes : Except GraphError ImportedGraph × MemoryStore → Bool
  | (.ok imported, kept) =>
    imported.faults.toList = [] &&
      match Archive.ofGraph kept ModuleSource.marker imported.graph with
      | .error _ => false
      | .ok archive =>
        match archive.unpack (Path.absolute ["work"]) emptyWork with
        | .error _ => false
        | .ok unpacked =>
          match importTree unpacked (Path.absolute ["work"]) .standard (NodeIds.ofSeed "")
            MemoryStore.empty with
          | (.error _, _) => false
          | (.ok again, _) =>
            again.graph.nodes.map (·.label) ≠ imported.graph.nodes.map (·.label) &&
              imported.graph.edges.any fun edge => edge.id ∉ again.graph.edges.map (·.id)
  | (.error _, _) => false

end QuotedFolder

/-- The runs on both trees.  They are made one after the other, as each of them takes much memory. -/
theorem unpacks_and_changes :
    (FlatTree.unpacks (importTree FlatTree.tree "/" .standard (NodeIds.ofSeed "")
        MemoryStore.empty) = true ∧
      ((FileTree.foldersOf [] FlatTree.entries).map fun place =>
        NodeIds.ofPath (Path.unsplit place.1)).Nodup) ∧
      QuotedFolder.changes (importTree QuotedFolder.tree "/" .standard (NodeIds.ofSeed "")
        MemoryStore.empty) = true := by
  refine ⟨⟨?_, ?_⟩, ?_⟩
  · decide +kernel
  · decide +kernel
  · decide +kernel

namespace FlatTree

open TwoModules (emptyWork)

theorem wellFormed_tree : tree.root.WellFormed := by
  simp only [tree, entries, FileTree.WellFormed, FileTree.AllWellFormed, Entries.Ascending,
    and_true, true_and]
  decide

theorem isBase_marker : ModuleSource.IsBase ModuleSource.marker := by
  refine ⟨List.suffix_refl _, fun front behind h => ?_⟩
  have hlength := congrArg List.length h
  rw [List.length_append, List.length_append] at hlength
  exact List.length_eq_zero_iff.1 (by omega)

/-- The graph of the tree comes back. -/
theorem isSame_again : tree.root.WellFormed ∧ tree.root.FoldersPlain ∧
    ModuleSource.IsBase ModuleSource.marker ∧ IsVerbatim ModuleSource.marker.toList ∧
    (∀ name ∈ ["work"], Path.IsPlain name) ∧ emptyWork.root.find? ["work"] = some (.folder []) ∧
    ∃ imported kept archive unpacked again kept',
      importTree tree "/" .standard (NodeIds.ofSeed "") MemoryStore.empty =
          (.ok imported, kept) ∧
        imported.faults.toList = [] ∧
        (∀ node ∈ imported.graph.nodes, sanitizeLabel node.label = node.label) ∧
        imported.graph.HasPathIds ∧ imported.graph.IsWritable ∧
        Archive.ofGraph kept ModuleSource.marker imported.graph = .ok archive ∧
        archive.unpack (Path.absolute ["work"]) emptyWork = .ok unpacked ∧
        importTree unpacked (Path.absolute ["work"]) .standard (NodeIds.ofSeed "")
          MemoryStore.empty = (.ok again, kept') ∧
        imported.graph.IsSame kept again kept' := by
  have hplain : tree.root.FoldersPlain := (FileTree.foldersPlain_iff wellFormed_tree).2 (by decide)
  have hverbatim : IsVerbatim ModuleSource.marker.toList := by decide
  have hhere : ∀ name ∈ ["work"], Path.IsPlain name := by decide
  have hempty : emptyWork.root.find? ["work"] = some (.folder []) := by rfl
  obtain ⟨imported, kept, archive, unpacked, himport, hfaults, htexts, harchive, hunpack⟩ :=
    exists_of_unpacks unpacks_and_changes.1.1
  have hlabels : ∀ node ∈ imported.graph.nodes, sanitizeLabel node.label = node.label :=
    fun node hnode => (htexts.1 node hnode).1
  have hlist : tree.list (Path.absolute []) = .ok entries :=
    FileSystem.list_absolute (by simp) (by decide) rfl
  have hroot : Path.absolute [] = "/" := by decide
  rw [hroot] at hlist
  have hpathIds : imported.graph.HasPathIds :=
    hasPathIds_of_importTree wellFormed_tree hplain himport hfaults hlabels fun es hes => by
      obtain rfl := Except.ok.inj (hlist.symm.trans hes)
      exact unpacks_and_changes.1.2
  obtain ⟨again, kept', hagain, hsame⟩ := importTree_isStable wellFormed_tree hplain himport
    hfaults hlabels hpathIds htexts.isWritable isBase_marker hverbatim harchive hhere hempty hunpack
  exact ⟨wellFormed_tree, hplain, isBase_marker, hverbatim, hhere, hempty, imported, kept, archive,
    unpacked, again, kept', himport, hfaults, hlabels, hpathIds, htexts.isWritable, harchive,
    hunpack, hagain, hsame⟩

end FlatTree

namespace QuotedFolder

open TwoModules (emptyWork)

theorem exists_of_changes {result : Except GraphError ImportedGraph × MemoryStore}
    (h : changes result = true) : ∃ imported kept archive unpacked again kept',
      result = (.ok imported, kept) ∧ imported.faults.toList = [] ∧
        Archive.ofGraph kept ModuleSource.marker imported.graph = .ok archive ∧
        archive.unpack (Path.absolute ["work"]) emptyWork = .ok unpacked ∧
        importTree unpacked (Path.absolute ["work"]) .standard (NodeIds.ofSeed "")
          MemoryStore.empty = (.ok again, kept') ∧
        again.graph.nodes.map (·.label) ≠ imported.graph.nodes.map (·.label) ∧
        ¬ again.graph.edges.Perm imported.graph.edges := by
  obtain ⟨_ | imported, kept⟩ := result
  · cases h
  · rw [changes, Bool.and_eq_true, decide_eq_true_eq] at h
    obtain ⟨hfaults, h⟩ := h
    split at h
    · cases h
    · rename_i archive harchive
      split at h
      · cases h
      · rename_i unpacked hunpack
        split at h
        · cases h
        · rename_i again kept' hagain
          simp only [Bool.and_eq_true, decide_eq_true_eq, List.any_eq_true] at h
          obtain ⟨hlabels, edge, hedge, hid⟩ := h
          exact ⟨imported, kept, archive, unpacked, again, kept', rfl, hfaults, harchive, hunpack,
            hagain, hlabels, fun hperm => hid ((hperm.map _).mem_iff.2
              (List.mem_map.2 ⟨edge, hedge, rfl⟩))⟩

/-- A label loses its quote on the way, and so does the directory.  Of two edges between the same
nodes, the one whose name comes first takes the id that the other one had. -/
theorem not_same_again : ModuleSource.IsBase ModuleSource.marker ∧
    ∃ imported kept archive unpacked again kept',
      importTree tree "/" .standard (NodeIds.ofSeed "") MemoryStore.empty =
          (.ok imported, kept) ∧
        imported.faults.toList = [] ∧
        Archive.ofGraph kept ModuleSource.marker imported.graph = .ok archive ∧
        archive.unpack (Path.absolute ["work"]) emptyWork = .ok unpacked ∧
        importTree unpacked (Path.absolute ["work"]) .standard (NodeIds.ofSeed "")
          MemoryStore.empty = (.ok again, kept') ∧
        again.graph.nodes.map (·.label) ≠ imported.graph.nodes.map (·.label) ∧
        ¬ again.graph.edges.Perm imported.graph.edges :=
  ⟨FlatTree.isBase_marker, exists_of_changes unpacks_and_changes.2⟩

end QuotedFolder

end InfraGraph
