import InfraGraph.Proofs.Import.Places
import InfraGraph.Proofs.Import.Restore

/-!
# Imported graphs can be restored

A graph that was imported without faults has what its own tree needs to make it again: the folders
at the top have configuration files, every folder is there for a file in it or further down, and no
attached file could have decided the type of its folder.  What remains to be asked for is that
labels can be names of directories as they are, and that configuration files read back.
-/

namespace InfraGraph

/-! ### Types -/

namespace NodeType

theorem settled_of_settings : ∀ type ∈ settingsTypes,
    type.hasOutput = true ∧ type ≠ .root ∧ type ≠ .file := by
  decide

theorem rivalNames_of_settings : ∀ type ∈ settingsTypes,
    type.rivalNames = (settingsTypes.takeWhile fun t => t ≠ type).map outputFileName := by
  decide

end NodeType

namespace Scanner

/-- A usable configuration file makes a folder one with output, without one it stays a folder. -/
theorem settled_cases {classification : Classification} {path : String}
    {files : List (String × ByteArray)} {settled : Settled}
    (h : settleFolder classification path files = .ok settled) (hfault : settled.fault = none)
    (htypes : ∀ type, classification = .settings type → type.hasOutput = true) :
    (classification = .folder ∧ settled = ⟨.folder, none, none⟩) ∨
      (classification ≠ .folder ∧ settled.type.hasOutput = true ∧
        ∃ config, settled.config = some config) := by
  cases classification with
  | folder => exact .inl ⟨rfl, (Except.ok.inj h).symm⟩
  | settings type =>
      right
      simp only [settleFolder, Classification.fileName?, settle] at h
      split at h
      · obtain rfl := Except.ok.inj h
        cases hfault
      · obtain rfl := Except.ok.inj h
        exact ⟨by simp, htypes type rfl, _, rfl⟩
  | module =>
      right
      simp only [settleFolder, Classification.fileName?, settle] at h
      split at h
      · obtain rfl := Except.ok.inj h
        cases hfault
      · split at h
        · obtain rfl := Except.ok.inj h
          exact ⟨by simp, rfl, _, rfl⟩
        · cases h

/-- A type that was decided without a fault has a place in a tree, and none of the files would have
decided for another one. -/
theorem DecidedBy.rivals {files : List (String × ByteArray)} {config? : Option String}
    {type : NodeType} (h : DecidedBy files config? type none) :
    (type ≠ .root ∧ type ≠ .file) ∧ ∀ name ∈ type.rivalNames, name ∉ files.map (·.1) := by
  cases h with
  | @settings before after type _ hsplit hbefore _ =>
      have hmem : type ∈ NodeType.settingsTypes := by
        rw [hsplit]
        exact List.mem_append_right _ List.mem_cons_self
      refine ⟨(NodeType.settled_of_settings type hmem).2, fun name hname => ?_⟩
      have hfront : (NodeType.settingsTypes.takeWhile fun t => t ≠ type) <+: before := by
        rw [hsplit, List.takeWhile_append]
        split
        · simp
        · exact List.takeWhile_prefix _
      rw [NodeType.rivalNames_of_settings type hmem] at hname
      obtain ⟨other, hother, rfl⟩ := List.mem_map.1 hname
      exact hbefore other (hfront.subset hother)
  | module hnone _ _ _ =>
      refine ⟨⟨by simp, by simp⟩, fun name hname => ?_⟩
      obtain ⟨type, htype, rfl⟩ := List.mem_map.1 hname
      exact hnone type htype
  | folder hnone hfile =>
      refine ⟨⟨by simp, by simp⟩, fun name hname => ?_⟩
      rcases List.mem_append.1 hname with hname | hname
      · obtain ⟨type, htype, rfl⟩ := List.mem_map.1 hname
        exact hnone type htype
      · rw [List.mem_singleton.1 hname]
        exact hfile

/-- A folder at the top has a configuration file. -/
theorem Visits.configured {scanner : Scanner} {top : String} {depth : Nat}
    {parentId : Option String} {ids ids' : NodeIds} {items : List (List String × FileTree)}
    {found : List Visit} (h : scanner.Visits top depth parentId ids items found ids') :
    ∀ v ∈ found, v.depth = 0 → Classification.ofEntries v.entries ≠ .folder := by
  induction h with
  | done => exact fun _ hv => absurd hv List.not_mem_nil
  | pass _ _ ih => exact ih
  | prune _ _ _ _ _ ihrest => exact ihrest
  | keep _ _ hroot _ _ _ ihbelow ihrest =>
      rw [List.forall_mem_cons, List.forall_mem_append]
      exact ⟨hroot, ihbelow, ihrest⟩

end Scanner

/-! ### Lineages through a directory -/

/-- On the way to a node there is one that lies in each of the directories above it. -/
theorem LiesAt.exists_above {nodes : List Node} {node : Node} {front back : List String}
    (hroots : ∀ node ∈ nodes, node.type ≠ .root) (hfront : front ≠ [])
    (h : LiesAt nodes node (front ++ back)) :
    ∃ above, IsLineage nodes (node :: above) ∧ ∃ upper ∈ node :: above,
      LiesAt nodes upper front := by
  induction back using List.reverseRecOn generalizing node with
  | nil =>
      rw [List.append_nil] at h
      obtain ⟨above, hlineage, _⟩ := id h
      exact ⟨above, hlineage, node, List.mem_cons_self, h⟩
  | append_singleton back last ih =>
      rcases h.cases_parent hroots with ⟨_, hparts⟩ | ⟨parent, parts, hparent, hlies, hparts⟩
      · rw [← List.append_assoc] at hparts
        have hsingle : front ++ back ++ [last] = [] ++ [sanitizeLabel node.label] := hparts
        have hnil := (List.append_inj' hsingle rfl).1
        exact absurd (List.append_eq_nil_iff.1 hnil).1 hfront
      · rw [← List.append_assoc] at hparts
        rw [← (List.append_inj' hparts rfl).1] at hlies
        obtain ⟨above, hlineage, upper, hupper, hup⟩ := ih hlies
        exact ⟨parent :: above, ⟨h.mem, hparent, hlineage⟩, upper,
          List.mem_cons_of_mem _ hupper, hup⟩

namespace Scanner.IsImport

variable {scanner : Scanner} {entries : List (String × FileTree)} {found : List Visit}
  {nodes : List Node} {v w : Visit} {node : Node}

theorem hasOutput_of_settings {names : List String} {type : NodeType}
    (h : Classification.ofFiles names = .settings type) : type.hasOutput = true := by
  rw [Classification.ofFiles] at h
  split at h
  · rename_i found hfind
    obtain rfl := Classification.settings.inj h
    exact (NodeType.settled_of_settings _ (List.mem_of_find?_eq_some hfind)).1
  · split at h <;> cases h

theorem decidedBy (h : scanner.IsImport entries found nodes) (hv : v ∈ found) :
    DecidedBy (FileTree.plainFiles v.entries) (Classification.ofEntries v.entries).fileName?
      v.settled.type v.settled.fault := by
  obtain ⟨ids, hvisits⟩ := h.visits
  exact decidedBy_of_settleFolder (hvisits.settleFolder v hv)

theorem settled (h : scanner.IsImport entries found nodes) (hv : v ∈ found)
    (hfault : v.settled.fault = none) :
    (Classification.ofEntries v.entries = .folder ∧ v.settled = ⟨.folder, none, none⟩) ∨
      (Classification.ofEntries v.entries ≠ .folder ∧ v.settled.type.hasOutput = true ∧
        ∃ config, v.settled.config = some config) := by
  obtain ⟨ids, hvisits⟩ := h.visits
  exact settled_cases (hvisits.settleFolder v hv) hfault fun type => hasOutput_of_settings

/-- Only folders with output have values. -/
theorem config_eq_none (h : scanner.IsImport entries found nodes) (hv : v ∈ found)
    (hfault : v.settled.fault = none) (houtput : v.settled.type.hasOutput ≠ true) :
    v.settled.config = none := by
  rcases h.settled hv hfault with ⟨_, hsettled⟩ | ⟨_, houtput', _⟩
  · rw [hsettled]
  · exact absurd houtput' houtput

/-- Every folder has a kept one in itself or further down that has plain files. -/
theorem exists_below (h : scanner.IsImport entries found nodes) (hv : v ∈ found) :
    ∃ w ∈ found, ∃ more, w.parts = v.parts ++ more ∧ FileTree.plainFiles w.entries ≠ [] := by
  obtain ⟨ids, hvisits⟩ := h.visits
  obtain ⟨⟨more, es, hfind, hfiles⟩, _⟩ :=
    hvisits.exists_item (wellFormed_itemsIn h.wellFormed []) v hv
  obtain ⟨hne, hown⟩ := h.find?_eq hv
  have hbelow : (FileTree.folder entries).find? (v.parts ++ more) = some (.folder es) := by
    rw [FileTree.find?_append, hown]
    exact hfind
  obtain ⟨name, rest, hparts⟩ := List.exists_cons_of_ne_nil
    (List.append_ne_nil_of_left_ne_nil hne more)
  rw [hparts] at hbelow
  obtain ⟨item, hitem, hname, hentry⟩ := exists_item_of_find? hbelow []
  obtain ⟨w, hw, hwparts, rfl⟩ := hvisits.exists_visit item hitem rest es hentry
    ⟨[], es, FileTree.find?_nil _, hfiles⟩
  refine ⟨w, hw, more, ?_, hfiles⟩
  rw [hwparts, hname, hparts]
  rfl

/-- A folder with plain files has one of them attached, or one that makes it a folder with
output. -/
theorem uploads_ne_nil_or_hasOutput (h : scanner.IsImport entries found nodes) (hv : v ∈ found)
    (hfault : v.settled.fault = none) (hfiles : FileTree.plainFiles v.entries ≠ []) :
    v.uploads ≠ [] ∨ v.settled.type.hasOutput = true := by
  rcases h.settled hv hfault with ⟨hfolder, _⟩ | ⟨_, houtput, _⟩
  · left
    obtain ⟨file, hfile⟩ := List.exists_mem_of_ne_nil _ hfiles
    refine List.ne_nil_of_mem (List.mem_map.2 ⟨file, List.mem_filter.2 ⟨hfile, ?_⟩, rfl⟩)
    rw [hfolder]
    simp [Classification.fileName?]
  · exact .inr houtput

theorem rivals (h : scanner.IsImport entries found nodes) (hv : v ∈ found)
    (hfault : v.settled.fault = none) :
    (v.settled.type ≠ .root ∧ v.settled.type ≠ .file) ∧
      ∀ name ∈ v.settled.type.rivalNames, name ∉ (FileTree.plainFiles v.entries).map (·.1) := by
  have hdecided := h.decidedBy hv
  rw [hfault] at hdecided
  exact hdecided.rivals

/-- The types of nodes are those of folders. -/
theorem types_ne (h : scanner.IsImport entries found nodes)
    (hfaults : ∀ v ∈ found, v.settled.fault = none) :
    ∀ node ∈ nodes, node.type ≠ .root ∧ node.type ≠ .file := by
  intro node hnode
  obtain ⟨v, hv, hmakes⟩ := h.exists_visit hnode
  rw [hmakes.type_eq]
  exact (h.rivals hv (hfaults v hv)).1

/-- A folder at the top has a configuration file, and isn't in the way of the fixed one. -/
theorem top (h : scanner.IsImport entries found nodes)
    (hdefault : ∀ inner, Entries.find? NodeType.defaultFileName entries ≠ some (.folder inner))
    (hv : v ∈ found) (hfault : v.settled.fault = none) (hmakes : v.Makes scanner node)
    (hparent : node.parentId = none) :
    node.type.hasOutput = true ∧ node.label ≠ NodeType.defaultFileName := by
  rw [hmakes.parentId_eq] at hparent
  rcases h.parent hv with ⟨name, hparts, _, hdepth⟩ | ⟨above, _, _, _, hsome, _⟩
  · obtain ⟨ids, hvisits⟩ := h.visits
    refine ⟨?_, fun hlabel => ?_⟩
    · rw [hmakes.type_eq]
      rcases h.settled hv hfault with ⟨hfolder, _⟩ | ⟨_, houtput, _⟩
      · exact absurd hfolder (hvisits.configured v hv hdepth)
      · exact houtput
    · have hfind := (h.find?_eq hv).2
      rw [hparts, ← @label_eq _ _ _ _ _ _ h hv hmakes [] name hparts, hlabel,
        FileTree.find?_folder_cons, Option.bind_eq_some_iff] at hfind
      obtain ⟨child, hchild, hfind⟩ := hfind
      rw [FileTree.find?_nil, Option.some.injEq] at hfind
      exact hdefault _ (hfind ▸ hchild)
  · rw [hparent] at hsome
    cases hsome

/-- Below every node, or in it, something is attached or generated. -/
theorem exists_used (h : scanner.IsImport entries found nodes)
    (hfaults : ∀ v ∈ found, v.settled.fault = none)
    (hnodes : ∀ node ∈ nodes, node.type ≠ .root ∧ sanitizeLabel node.label = node.label)
    (hnode : node ∈ nodes) : ∃ below above, IsLineage nodes (below :: above) ∧
      node ∈ below :: above ∧ (below.files ≠ [] ∨ below.type.hasOutput = true) := by
  obtain ⟨v, hv, hmakes⟩ := h.exists_visit hnode
  obtain ⟨w, hw, more, hparts, hfiles⟩ := h.exists_below hv
  obtain ⟨below, hbelow, hbelowMakes⟩ := h.exists_node hw
  have hlies := h.liesAt hnodes hw hbelow hbelowMakes
  rw [hparts] at hlies
  obtain ⟨above, hlineage, upper, hupper, hup⟩ :=
    hlies.exists_above (fun node hnode => (hnodes node hnode).1) (h.find?_eq hv).1
  -- The node in the directory of the folder is the node of the folder.
  obtain ⟨v', hv', hmakes', hsame⟩ := h.exists_visit_of_liesAt hnodes hup
  obtain rfl := h.eq_of_parts_eq hv' hv hsame
  obtain rfl := h.distinctIds.eq_of_id_eq hup.mem hnode (hmakes'.id_eq.trans hmakes.id_eq.symm)
  refine ⟨below, above, hlineage, hupper, ?_⟩
  rw [hbelowMakes.files_eq, hbelowMakes.type_eq]
  refine (h.uploads_ne_nil_or_hasOutput hw (hfaults w hw) hfiles).imp_left fun hsome hnil => ?_
  exact hsome (List.map_eq_nil_iff.1 hnil)

/-- No attached file is one that would have decided the type of its folder. -/
theorem fileName_not_mem_rivalNames (h : scanner.IsImport entries found nodes) (hv : v ∈ found)
    (hfault : v.settled.fault = none) (hmakes : v.Makes scanner node) {file : FileRef}
    (hfile : file ∈ node.files) : file.fileName ∉ node.type.rivalNames := by
  rw [hmakes.files_eq] at hfile
  rw [hmakes.type_eq]
  intro hrival
  refine (h.rivals hv hfault).2 _ hrival ?_
  obtain ⟨upload, hupload, rfl⟩ := List.mem_map.1 hfile
  obtain ⟨plain, hplain, rfl⟩ := List.mem_map.1 hupload
  exact List.mem_map.2 ⟨plain, (List.mem_filter.1 hplain).1, rfl⟩

/-- Dependencies are stated in configuration files. -/
theorem exists_source (h : scanner.IsImport entries found nodes)
    (hfaults : ∀ v ∈ found, v.settled.fault = none) {edges : List Edge}
    (hedges : edgesOf (found.map (Visit.scannedNode scanner scanner.root)) []
      (found.flatMap (Visit.references scanner scanner.root)) = .ok edges) {e : Edge}
    (he : e ∈ edges) : ∃ node ∈ nodes, node.id = e.source ∧ node.type.hasOutput = true := by
  obtain ⟨d, hd, hsaid, _⟩ := exists_of_mem_edgesOf hedges he
  obtain ⟨v, hv, hd⟩ := List.mem_flatMap.1 hd
  obtain ⟨node, hnode, hmakes⟩ := h.exists_node hv
  refine ⟨node, hnode, ?_, ?_⟩
  · rw [hsaid.source, Visit.sourceId_of_mem_references hd, hmakes.id_eq]
  · rw [hmakes.type_eq]
    by_contra houtput
    rw [Visit.references, h.config_eq_none hv (hfaults v hv) houtput] at hd
    cases hd

/-- What an imported graph still needs so that it can be restored are labels that are names of
directories, and configuration files that read back. -/
theorem isRestorable (h : scanner.IsImport entries found nodes)
    (hfaults : ∀ v ∈ found, v.settled.fault = none)
    (hdefault : ∀ inner, Entries.find? NodeType.defaultFileName entries ≠ some (.folder inner))
    (hlabels : ∀ node ∈ nodes, sanitizeLabel node.label = node.label) {edges : List Edge}
    (hedges : edgesOf (found.map (Visit.scannedNode scanner scanner.root)) []
      (found.flatMap (Visit.references scanner scanner.root)) = .ok edges) {moduleBase : String}
    (hreads : ∀ paths, resolvePaths nodes = .ok paths → ∀ node path dependencies,
      IsPlaced nodes node path → node.type.hasOutput = true →
      resolveDependencies node.id path (Graph.outgoing ⟨nodes, edges⟩ node.id) paths =
        .ok dependencies →
      (Archive.configFile moduleBase node dependencies).ReadsBack node.type.module?) :
    IsRestorable moduleBase ⟨nodes, edges⟩ := by
  have htypes := h.types_ne hfaults
  have hnodes : ∀ node ∈ nodes, node.type ≠ .root ∧ sanitizeLabel node.label = node.label :=
    fun node hnode => ⟨(htypes node hnode).1, hlabels node hnode⟩
  refine ⟨fun node hnode => ?_, htypes, fun node hnode hparent => ?_, hlabels,
    fun node hnode _ => h.exists_used hfaults hnodes hnode, fun node hnode file hfile => ?_,
    fun e he _ => h.exists_source hfaults hedges he, hreads⟩
  · obtain ⟨v, hv, hmakes⟩ := h.exists_visit hnode
    exact ⟨_, h.liesAt hnodes hv hnode hmakes⟩
  · obtain ⟨v, hv, hmakes⟩ := h.exists_visit hnode
    exact h.top hdefault hv (hfaults v hv) hmakes hparent
  · obtain ⟨v, hv, hmakes⟩ := h.exists_visit hnode
    exact h.fileName_not_mem_rivalNames hv (hfaults v hv) hmakes hfile

end Scanner.IsImport

end InfraGraph
