import Mathlib
import InfraGraph.Proofs.Import.Found
import InfraGraph.Proofs.Import.Upload

/-!
# From a graph to its tree and back

A graph is generated as an archive, the archive is unpacked into an empty folder, and the folder is
imported again.  Under other ids, the same nodes are in the same directories, with the same values
and the same files, and the enabled edges lead between the same nodes.
-/

namespace InfraGraph

/-- The files of all nodes of a graph, where the nodes have other ids. -/
def Graph.uploads {σ : Type} [AttachmentStore σ] (store : σ) (rename : String → String)
    (g : Graph) : List Upload :=
  g.nodes.flatMap fun node => node.uploads store (rename node.id)

/-- A graph is another one under other ids, and its files are in a store that was empty before. -/
structure IsRestored {σ : Type} [AttachmentStore σ] (store : σ) (rename : String → String)
    (g : Graph) (imported : ImportedGraph) (kept : MemoryStore) : Prop where
  faults : imported.faults.toList = []
  ids : DistinctIds imported.graph.nodes
  nodes : ∃ order : List Node, order.Perm g.nodes ∧
    List.Forall₂ (fun node copy => node.IsCopy rename copy ∧
      copy.files.Perm ((node.uploads store copy.id).map Upload.reference))
      order imported.graph.nodes
  /-- Copies lie where the nodes lie, and know how deep that is. -/
  directories : ∀ node parts, LiesAt g.nodes node parts → ∃ copy ∈ imported.graph.nodes,
    node.IsCopy rename copy ∧ LiesAt imported.graph.nodes copy parts ∧
      copy.depth + 1 = parts.length
  edges : (imported.graph.edges.map Edge.ends).Perm
    ((g.edges.filter fun e => e.enabled).map (Edge.endsUnder rename))
  enabled : ∀ e ∈ imported.graph.edges, e.enabled = true
  records : ∀ id, (∃ record, kept.records.find? id = some record) ↔
    ∃ upload ∈ g.uploads store rename, upload.record.id = id
  /-- The files can be had back, as long as digests tell them apart. -/
  contents : TellApart (g.uploads store rename) → ∀ upload ∈ g.uploads store rename,
    kept.records.find? upload.record.id = some upload.record ∧
      kept.get upload.record.id = .ok (some upload.contents)

/-! ### Nodes, edges and files -/

namespace Restores

open Archive (IsGenerable)

variable {σ : Type} [AttachmentStore σ] {store : σ} {moduleBase : String} {g : Graph}
  {paths : PathMap} {found : List Finding} {nodeOf : Finding → Node}

/-- The references of all folders say what the enabled edges say. -/
theorem flatMap_references_perm (hr : Restores store g paths found nodeOf)
    (hg : IsRestorable moduleBase g) (hids : DistinctIds g.nodes)
    (h : IsGenerable store moduleBase g paths) {target : DependencyReference → String}
    (htarget : ∀ d ∈ found.flatMap Finding.references,
      idAt? (found.map Finding.scannedNode) d.target = some (target d)) :
    ((found.flatMap Finding.references).map fun d => (d.sourceId, target d, some d.name)).Perm
      ((g.edges.filter fun e => e.enabled).map (Edge.endsUnder (idGivenTo found nodeOf))) := by
  have hfolder : ∀ f ∈ found,
      (f.references.map fun d => (d.sourceId, target d, some d.name)).Perm
        ((activeEdges g.edges (nodeOf f).id).map (Edge.endsUnder (idGivenTo found nodeOf))) := by
    intro f hf
    have hperm := hr.references_perm hg hids h hf
    refine (hperm.map _).trans (List.Perm.of_eq ?_)
    rw [List.map_map]
    refine List.map_congr_left fun edge hedge => ?_
    obtain ⟨hid, hname, hsource⟩ := hr.idAt?_reference hg hids h hf hedge
    have hmem : f.reference paths edge ∈ found.flatMap Finding.references :=
      List.mem_flatMap.2 ⟨f, hf, hperm.mem_iff.2 (List.mem_map.2 ⟨edge, hedge, rfl⟩)⟩
    have hsame := Option.some.inj ((htarget _ hmem).symm.trans hid)
    simp only [Function.comp, Edge.endsUnder, hsame, ← hsource, hname]
    rfl
  have hedges := (flatMap_activeEdges_perm hids fun e he henabled => by
    obtain ⟨node, hnode, hid, _⟩ := hg.sources e he henabled
    exact ⟨node, hnode, hid⟩).map (Edge.endsUnder (idGivenTo found nodeOf))
  have hnodes := (hr.perm.flatMap_right fun node => activeEdges g.edges node.id).map
    (Edge.endsUnder (idGivenTo found nodeOf))
  rw [List.flatMap_map, List.map_flatMap] at hnodes
  rw [List.map_flatMap]
  exact (List.Perm.flatMap_left found hfolder).trans (hnodes.trans hedges)

/-- Every reference leads to a folder that was found. -/
theorem exists_idAt? (hr : Restores store g paths found nodeOf) (hg : IsRestorable moduleBase g)
    (hids : DistinctIds g.nodes) (h : IsGenerable store moduleBase g paths) :
    ∀ d ∈ found.flatMap Finding.references,
      ∃ id, idAt? (found.map Finding.scannedNode) d.target = some id := by
  intro d hd
  obtain ⟨f, hf, hd⟩ := List.mem_flatMap.1 hd
  obtain ⟨edge, hedge, rfl⟩ := List.mem_map.1 ((hr.references_perm hg hids h hf).mem_iff.1 hd)
  exact ⟨_, (hr.idAt?_reference hg hids h hf hedge).1⟩

theorem distinctIds_copies (hr : Restores store g paths found nodeOf) {copies : List Node}
    (hlaid : List.Forall₂ (fun (f : Finding) copy => ∃ position size,
      copy = f.scannedNode.node.withFrame position size) found copies) :
    DistinctIds copies := by
  have hsame : found.map Finding.id = copies.map Node.id := by
    refine map_eq_map_of_forall₂ (hlaid.imp fun f copy hcopy => ?_)
    obtain ⟨position, size, rfl⟩ := hcopy
    rfl
  rw [DistinctIds, ← hsame]
  exact hr.ids_nodup

/-- Where nodes are those of found folders, they lie in the directories of the folders. -/
theorem exists_copy_liesAt (hr : Restores store g paths found nodeOf)
    (hg : IsRestorable moduleBase g) (hids : DistinctIds g.nodes)
    (h : IsGenerable store moduleBase g paths) {copies : List Node}
    (hlaid : List.Forall₂ (fun (f : Finding) copy => ∃ position size,
      copy = f.scannedNode.node.withFrame position size) found copies)
    (hcopies : DistinctIds copies) {node : Node} {parts : List String}
    (hlies : LiesAt g.nodes node parts) :
    ∃ copy ∈ copies, node.IsCopy (idGivenTo found nodeOf) copy ∧ LiesAt copies copy parts ∧
      copy.depth + 1 = parts.length := by
  have hall : ∀ f ∈ found, ∃ copy ∈ copies, (nodeOf f).IsCopy (idGivenTo found nodeOf) copy ∧
      copy.depth = f.parts.length - 1 := by
    intro f hf
    obtain ⟨copy, hcopy, position, size, rfl⟩ := exists_mem_of_forall₂ hlaid hf
    exact ⟨_, hcopy, hr.isCopy hg hids h hf position size, rfl⟩
  have hnodes : ∀ node ∈ g.nodes, ∃ copy ∈ copies,
      node.IsCopy (idGivenTo found nodeOf) copy := by
    intro node hnode
    obtain ⟨f, hf, rfl⟩ := hr.exists_of_mem hnode
    obtain ⟨copy, hmem, hcopy, _⟩ := hall f hf
    exact ⟨copy, hmem, hcopy⟩
  obtain ⟨copy, hcopy, hcopyLies⟩ := hlies.exists_copy (Node.IsCopy.keepsPlaces _) hnodes
  refine ⟨copy, hcopyLies.mem, hcopy, hcopyLies, ?_⟩
  obtain ⟨f, hf, rfl⟩ := hr.exists_of_mem hlies.mem
  obtain ⟨copy', hmem', hcopy', hdepth⟩ := hall f hf
  obtain rfl := hcopies.eq_of_id_eq hmem' hcopyLies.mem (hcopy'.id.trans hcopy.id.symm)
  have hpositive := List.length_pos_iff.2 (hg.ne_nil hlies)
  rw [hdepth, LiesAt.unique hids (hr.lies f hf) hlies]
  omega

/-- The graph of what was found is the graph that the tree was made from. -/
theorem exists_isRestored (hr : Restores store g paths found nodeOf)
    (hg : IsRestorable moduleBase g) (hids : DistinctIds g.nodes)
    (h : IsGenerable store moduleBase g paths) (options : LayoutOptions Float) :
    ∃ imported, reconstruct ⟨found.map Finding.scannedNode, found.flatMap Finding.references⟩
        options = .ok imported ∧
      IsRestored store (idGivenTo found nodeOf) g imported
        (MemoryStore.empty.addAll (found.flatMap Finding.uploads)) := by
  have hfaults : ∀ n ∈ found.map Finding.scannedNode, n.fault = none := by
    intro n hn
    obtain ⟨f, hf, rfl⟩ := List.mem_map.1 hn
    exact (hr.settled f hf).fault
  choose! target htarget using hr.exists_idAt? hg hids h
  obtain ⟨imported, hreconstruct, hnone, hlaid, htells⟩ :=
    @exists_reconstruct_eq_ok ⟨found.map Finding.scannedNode, found.flatMap Finding.references⟩
      options (hr.paths_nodup h) hfaults _ htarget
  rw [List.forall₂_map_left_iff] at hlaid
  have hframes : List.Forall₂ (fun (f : Finding) copy => f ∈ found ∧ ∃ position size,
      copy = f.scannedNode.node.withFrame position size) found imported.graph.nodes :=
    (List.forall₂_and_left _ _).2 ⟨fun f hf => hf, hlaid⟩
  have hcopies := hr.distinctIds_copies hlaid
  have hends : imported.graph.edges.map Edge.ends =
      (found.flatMap Finding.references).map fun d =>
        (d.sourceId, target d, some d.name) := by
    refine (map_eq_map_of_forall₂ (htells.imp fun d edge hedge => ?_)).symm
    rw [Edge.ends, hedge.source, hedge.target, hedge.dependencyName]
  have huploads : ∀ upload, upload ∈ found.flatMap Finding.uploads ↔
      upload ∈ g.uploads store (idGivenTo found nodeOf) := fun upload =>
    (hr.flatMap_uploads_perm hids).mem_iff
  have hholds := MemoryStore.holdsUploads_addAll (found.flatMap Finding.uploads)
  refine ⟨imported, hreconstruct, hnone, hcopies, ⟨found.map nodeOf, hr.perm, ?_⟩,
    fun node parts hlies => hr.exists_copy_liesAt hg hids h hlaid hcopies hlies, ?_,
    fun edge hedge => ?_, fun id => ?_, fun hapart upload hupload => ?_⟩
  · rw [List.forall₂_map_left_iff]
    refine hframes.imp fun f copy hcopy => ?_
    obtain ⟨hf, position, size, rfl⟩ := hcopy
    exact ⟨hr.isCopy hg hids h hf position size, (hr.uploads f hf).map Upload.reference⟩
  · rw [hends]
    exact hr.flatMap_references_perm hg hids h htarget
  · obtain ⟨d, _, hsaid⟩ := exists_mem_of_forall₂ htells.flip hedge
    exact hsaid.enabled
  · rw [hholds.records id]
    simp only [huploads]
  · have hapart' : TellApart (found.flatMap Finding.uploads) := by
      refine ⟨fun a ha b hb => ?_, fun a ha b hb => ?_⟩
      · exact hapart.records a ((huploads a).1 ha) b ((huploads b).1 hb)
      · exact hapart.contents a ((huploads a).1 ha) b ((huploads b).1 hb)
    have hmem := (huploads upload).2 hupload
    exact ⟨(hholds.found upload hmem hapart').1, hholds.get hapart' hmem⟩

end Restores

/-! ### There and back -/

section RoundTrip

variable {σ : Type} [AttachmentStore σ] {store : σ} {moduleBase : String} {g : Graph}
  {paths : PathMap} {fs : FileSystem} {here : List String} {t : FileTree}

/-- A tree of a graph is imported as a graph. -/
theorem exists_importTree_eq_ok (hg : IsRestorable moduleBase g) (hids : DistinctIds g.nodes)
    (h : Archive.IsGenerable store moduleBase g paths)
    (hhere : ∀ name ∈ here, Path.IsPlain name)
    (hfits : FileSystem.Fits (here ++ [NodeType.defaultFileName]))
    (hfind : fs.root.find? here = some t) (htree : Archive.IsTreeOf store moduleBase g paths t)
    (options : LayoutOptions Float) (draw : Nat → String) :
    ∃ imported kept rename,
      importTree fs (Path.absolute here) options draw MemoryStore.empty = (.ok imported, kept) ∧
        IsRestored store rename g imported kept := by
  obtain ⟨es, hes⟩ := FileTree.exists_entries_of_kindAt ((htree.folder []).2 (.inl rfl))
  obtain rfl : t = .folder es := by simpa using hes
  have hcomponents : Path.components (Path.absolute here) =
      Path.components (Scanner.mk (Path.absolute here) draw).root ++ [] := by
    rw [List.append_nil]
  obtain ⟨found, hfinds⟩ := Scanner.exists_finds_scanSubfolders
    (fun entry _ => Scanner.findsAll (Scanner.mk (Path.absolute here) draw) entry.2)
    hcomponents (hg.forall_isKept hids h htree) none NodeIds.empty
  obtain ⟨nodeOf, hr⟩ := Restores.exists_restores hg hids h htree hfinds
  have hvalid : ∀ f ∈ found, ∀ upload ∈ f.uploads, Attachment.isValidName upload.name = true :=
    fun f hf upload hupload => hr.isValidName_of_mem_uploads hg hids h hf hupload
  have hbootstrap := htree.isFile_bootstrap hhere hfits hfind
  have hscan : scanTree fs (Path.absolute here) draw =
      .ok (⟨found.map Finding.scannedNode, found.flatMap Finding.references⟩,
        found.flatMap Finding.uploads) := by
    rw [scanTree, if_pos hbootstrap, FileSystem.list_absolute hhere hfits.front hfind]
    simp only
    have hscanned := hfinds.scanned
    rw [List.length_nil] at hscanned
    rw [hscanned]
    exact Finding.result_join hvalid
  have hupload := @MemoryStore.runIn_uploadAll MemoryStore.empty (found.flatMap Finding.uploads)
    fun upload hupload => by
      obtain ⟨f, hf, hupload⟩ := List.mem_flatMap.1 hupload
      exact hvalid f hf upload hupload
  obtain ⟨imported, hreconstruct, hrestored⟩ := hr.exists_isRestored hg hids h options
  refine ⟨imported, _, _, ?_, hrestored⟩
  rw [importTree, hscan]
  simp only [hupload, hreconstruct]

/-- An archive of a graph is unpacked into the tree of the graph, unless a name or a path doesn't
fit. -/
theorem exists_isTreeOf_unpack {archive : Archive} (hids : DistinctIds g.nodes)
    (hg : IsRestorable moduleBase g) (harchive : Archive.ofGraph store moduleBase g = .ok archive)
    (hhere : ∀ name ∈ here, Path.IsPlain name) (hempty : fs.root.find? here = some (.folder [])) :
    ∃ paths, Archive.IsGenerable store moduleBase g paths ∧
      ((∃ unpacked, archive.unpack (Path.absolute here) fs = .ok unpacked) ↔ g.FitsBelow here) ∧
      ∀ unpacked, archive.unpack (Path.absolute here) fs = .ok unpacked →
        FileSystem.Fits (here ++ [NodeType.defaultFileName]) ∧
          ∃ t, unpacked.root.find? here = some t ∧
            Archive.IsTreeOf store moduleBase g paths t := by
  obtain ⟨paths, h, rfl⟩ := Archive.ofGraph_eq_ok_iff.1 harchive
  have hunpackable := Archive.isUnpackable_ofPlan h (hg.defaultFileName_not_mem hids h.resolved)
  have hne := List.ne_nil_of_mem (Archive.bootstrapFile_mem_entries h)
  obtain ⟨hfits, hmade⟩ := Archive.unpack_spec hhere hempty hunpackable hne
  rw [Archive.forall_fits_entries_iff hids h] at hfits
  refine ⟨paths, h, hfits, fun unpacked hunpack => ?_⟩
  obtain ⟨t, hfind, hwell, hmadeOf⟩ := hmade unpacked hunpack
  exact ⟨(hfits.1 ⟨unpacked, hunpack⟩).bootstrap, t, hfind,
    Archive.isTreeOf_of_isMadeOf hids h hwell hmadeOf⟩

/-- Generating, unpacking and importing gives the same graph back under other ids.  Only names and
paths that don't fit can keep an archive from being unpacked. -/
theorem importTree_unpack_ofGraph {archive : Archive} (hids : DistinctIds g.nodes)
    (hg : IsRestorable moduleBase g) (harchive : Archive.ofGraph store moduleBase g = .ok archive)
    (hhere : ∀ name ∈ here, Path.IsPlain name) (hempty : fs.root.find? here = some (.folder []))
    (options : LayoutOptions Float) (draw : Nat → String) :
    ((∃ unpacked, archive.unpack (Path.absolute here) fs = .ok unpacked) ↔ g.FitsBelow here) ∧
      ∀ unpacked, archive.unpack (Path.absolute here) fs = .ok unpacked →
        ∃ imported kept rename,
          importTree unpacked (Path.absolute here) options draw MemoryStore.empty =
              (.ok imported, kept) ∧
            IsRestored store rename g imported kept := by
  obtain ⟨paths, h, hfits, hmade⟩ := exists_isTreeOf_unpack hids hg harchive hhere hempty
  refine ⟨hfits, fun unpacked hunpacked => ?_⟩
  obtain ⟨hfit, t, hfind, htree⟩ := hmade unpacked hunpacked
  exact exists_importTree_eq_ok hg hids h hhere hfit hfind htree options draw

end RoundTrip

/-! ### Two modules, there and back -/

namespace ConfigFile

/-- The source, the variables, the inputs and the dependencies that are read from a text. -/
def valuesIn? (text : String) : Option (Option String × List (String × String) ×
    List (String × String) × List (String × String)) :=
  (ParsedConfig.parse text).toOption.map fun config =>
    (config.source, config.locals.toList, config.inputs.toList, config.dependencies)

theorem readsBack_of_valuesIn? {file : ConfigFile} {module? source? : Option String}
    (hvalues : valuesIn? file.text =
      some (source?, file.locals.toList, file.inputs.toList, file.dependencies.toList))
    (hmodule : ∀ module, module? = some module →
      ∃ source, source? = some source ∧ ModuleSource.name? source = some module) :
    file.ReadsBack module? := by
  unfold valuesIn? at hvalues
  cases hparse : ParsedConfig.parse file.text with
  | error e =>
      rw [hparse] at hvalues
      cases hvalues
  | ok config =>
      rw [hparse] at hvalues
      simp only [Except.toOption, Option.map_some, Option.some.injEq, Prod.mk.injEq] at hvalues
      obtain ⟨hsource, hlocals, hinputs, hdependencies⟩ := hvalues
      refine ⟨config, hparse, SortedMap.ext hlocals, SortedMap.ext hinputs, hdependencies, ?_⟩
      rwa [hsource]

-- The texts are kept as they are written: comparing one with its letters takes minutes.
theorem sourceText_eq (source : String) :
    sourceText source = "\nterraform \x7b\n    source = \"" ++ source ++
      "\"\n\x7d\n\ninclude \"root\" \x7b\n    path = find_in_parent_folders()\n\x7d\n" := by
  delta sourceText
  with_reducible rfl

theorem dependencyText_eq (entry : String × String) :
    dependencyText entry = "\ndependency \"" ++ entry.1 ++ "\" \x7b\n  config_path = \"" ++
      entry.2 ++ "\"\n\x7d\n" := by
  delta dependencyText
  with_reducible rfl

end ConfigFile

namespace TwoModules

/-- Every node, with the nodes above it. -/
def lineages : List (List Node) :=
  [[account], [environment, account], [region, environment, account],
    [zone, region, environment, account], [tier, zone, region, environment, account],
    [network, tier, zone, region, environment, account],
    [database, tier, zone, region, environment, account]]

theorem isLineage_of_mem_lineages : ∀ lineage ∈ lineages, IsLineage graph.nodes lineage := by
  simp [lineages, IsLineage, graph, network, database, tier, zone, region, environment, account,
    nodeBelow]

theorem exists_lineage {node : Node} (h : node ∈ graph.nodes) :
    ∃ above, node :: above ∈ lineages := by
  have hheads : graph.nodes = lineages.filterMap List.head? := rfl
  rw [hheads, List.mem_filterMap] at h
  obtain ⟨lineage, hlineage, hhead⟩ := h
  obtain ⟨above, rfl⟩ := List.head?_eq_some_iff.1 hhead
  exact ⟨above, hlineage⟩

theorem exists_lineage_of_liesAt {node : Node} {parts : List String}
    (h : LiesAt graph.nodes node parts) :
    ∃ above, node :: above ∈ lineages ∧ parts = directoryParts (node :: above) := by
  obtain ⟨above, hlineage⟩ := exists_lineage h.mem
  exact ⟨above, hlineage,
    h.unique distinctIds ⟨above, isLineage_of_mem_lineages _ hlineage, rfl⟩⟩

theorem fitsBelow : graph.FitsBelow ["work"] := by
  refine ⟨by decide, fun node parts _ hlies => ?_, fun node parts _ hlies name hname => ?_⟩
  · obtain ⟨above, hlineage, rfl⟩ := exists_lineage_of_liesAt hlies
    have hfits : ∀ lineage ∈ lineages, FileSystem.Fits (["work"] ++ directoryParts lineage) := by
      decide
    exact hfits _ hlineage
  · obtain ⟨above, hlineage, rfl⟩ := exists_lineage_of_liesAt hlies
    have hfits : ∀ lineage ∈ lineages, ∀ node ∈ lineage.head?, ∀ name ∈ node.fileNames,
        FileSystem.Fits (["work"] ++ (directoryParts lineage ++ [name])) := by
      decide
    exact hfits _ hlineage node rfl name hname

/-- What is written for a node with settings but without values. -/
def settingsText (type : NodeType) : String :=
  "# " ++ type.outputFileName ++ "\n\n\nlocals \x7b\n\n\x7d\n"

/-- What is written for the network. -/
def networkText : String :=
  "# terragrunt.hcl\n\n\nterraform \x7b\n    source = \"tg-modules//vpc\"\n\x7d\n\n" ++
    "include \"root\" \x7b\n    path = find_in_parent_folders()\n\x7d\n\nlocals \x7b\n\n\x7d\n"

/-- What is written for the database, which depends on the network. -/
def databaseText : String :=
  "# terragrunt.hcl\n\n\nterraform \x7b\n    source = \"tg-modules//rds\"\n\x7d\n\n" ++
    "include \"root\" \x7b\n    path = find_in_parent_folders()\n\x7d\n\nlocals \x7b\n\n\x7d\n" ++
    "\ndependency \"vpc\" \x7b\n  config_path = \"../network\"\n\x7d\n"

theorem valuesIn?_settings : ∀ type ∈ NodeType.settingsTypes,
    ConfigFile.valuesIn? (settingsText type) = some (none, [], [], []) := by
  simp only [NodeType.settingsTypes, List.forall_mem_cons]
  refine ⟨?_, ?_, ?_, ?_, ?_, ?_⟩
  · cbv
  · cbv
  · cbv
  · cbv
  · cbv
  · simp

theorem valuesIn?_network :
    ConfigFile.valuesIn? networkText = some (some "tg-modules//vpc", [], [], []) := by
  cbv

theorem valuesIn?_database : ConfigFile.valuesIn? databaseText =
    some (some "tg-modules//rds", [], [], [("vpc", "../network")]) := by
  cbv

/-- The edge from the database to the network. -/
theorem activeEdges_eq (nodeId : String) :
    activeEdges graph.edges nodeId = if nodeId = "database" then graph.edges else [] := by
  rw [graph, activeEdges, List.filter_singleton]
  by_cases h : nodeId = "database"
  · simp [h]
  · simp [h, Ne.symm h]

theorem dependenciesOf_of_ne {paths : PathMap} {nodeId nodePath : String}
    (h : nodeId ≠ "database") :
    dependenciesOf (graph.outgoing nodeId) paths nodeId nodePath = .empty := by
  rw [dependenciesOf, activeEdges_outgoing, activeEdges_eq, if_neg h]
  rfl

/-- The names that lead to the network. -/
def networkParts : List String :=
  ["live", "prod", "south", "inner", "web", "network"]

/-- The names that lead to the database. -/
def databaseParts : List String :=
  ["live", "prod", "south", "inner", "web", "database"]

theorem dependenciesOf_database {paths : PathMap} (h : resolvePaths graph.nodes = .ok paths)
    {parts : List String} (hlies : LiesAt graph.nodes database parts) :
    dependenciesOf (graph.outgoing "database") paths "database" (Path.unsplit parts) =
      SortedMap.empty.insert "vpc" "../network" := by
  have hnetwork : LiesAt graph.nodes network networkParts :=
    ⟨_, isLineage_of_mem_lineages [network, tier, zone, region, environment, account]
      (by simp [lineages]), by decide⟩
  have hdatabase : LiesAt graph.nodes database databaseParts :=
    ⟨_, isLineage_of_mem_lineages [database, tier, zone, region, environment, account]
      (by simp [lineages]), by decide⟩
  have hfind : paths.find? "network" = some (Path.unsplit networkParts) :=
    (find?_resolvePaths distinctIds h).2 ⟨network, _, by decide, rfl, hnetwork, rfl⟩
  have hsteps : Path.steps databaseParts networkParts = ["..", "network"] := by decide
  have hrelative := Path.relative_unsplit (hdatabase.isPlain h) (hnetwork.isPlain h)
  rw [hsteps, if_neg (by simp)] at hrelative
  rw [hlies.unique distinctIds hdatabase, dependenciesOf, activeEdges_outgoing, activeEdges_eq,
    if_pos rfl]
  simp only [graph, List.map_cons, List.map_nil, Edge.dependency, hfind, Option.getD_some,
    hrelative]
  rfl

theorem readsBack_settings {type : NodeType} (htype : type ∈ NodeType.settingsTypes)
    (parent : Option String) (label : String) :
    (Archive.configFile ModuleSource.marker (nodeBelow type parent label []) .empty).ReadsBack
      none := by
  have hmodule : type.module? = none := by
    revert htype type
    decide
  have htext : (Archive.configFile ModuleSource.marker (nodeBelow type parent label [])
      .empty).text = settingsText type := by
    simp [ConfigFile.text, Archive.configFile, nodeBelow, hmodule, ConfigFile.localsText,
      ConfigFile.definitionsText, ConfigFile.inputsText, SortedMap.isEmpty, SortedMap.empty,
      settingsText, String.append_assoc]
  apply ConfigFile.readsBack_of_valuesIn?
  · rw [htext, valuesIn?_settings type htype]
    rfl
  · intro module hnone
    cases hnone

theorem readsBack_network :
    (Archive.configFile ModuleSource.marker network .empty).ReadsBack (some "vpc") := by
  have htext : (Archive.configFile ModuleSource.marker network .empty).text = networkText := by
    delta networkText
    simp [ConfigFile.text, Archive.configFile, network, nodeBelow, NodeType.module?,
      NodeType.outputFileName, NodeType.defaultFileName, ModuleSource.ofName, ModuleSource.marker,
      ConfigFile.sourceText_eq, ConfigFile.localsText, ConfigFile.definitionsText,
      ConfigFile.inputsText, SortedMap.isEmpty, SortedMap.empty]
  apply ConfigFile.readsBack_of_valuesIn?
  · rw [htext, valuesIn?_network]
    rfl
  · intro module hmodule
    obtain rfl := Option.some.inj hmodule
    exact ⟨_, rfl, by decide⟩

theorem readsBack_database :
    (Archive.configFile ModuleSource.marker database
      (SortedMap.empty.insert "vpc" "../network")).ReadsBack (some "rds") := by
  have htext : (Archive.configFile ModuleSource.marker database
      (SortedMap.empty.insert "vpc" "../network")).text = databaseText := by
    delta databaseText
    simp [ConfigFile.text, Archive.configFile, database, nodeBelow, NodeType.module?,
      NodeType.outputFileName, NodeType.defaultFileName, ModuleSource.ofName, ModuleSource.marker,
      ConfigFile.sourceText_eq, ConfigFile.localsText, ConfigFile.definitionsText,
      ConfigFile.inputsText, ConfigFile.dependencyText_eq, SortedMap.isEmpty, SortedMap.empty,
      SortedMap.insert, Entries.insert]
  apply ConfigFile.readsBack_of_valuesIn?
  · rw [htext, valuesIn?_database]
    rfl
  · intro module hmodule
    obtain rfl := Option.some.inj hmodule
    exact ⟨_, rfl, by decide⟩

theorem isRestorable : IsRestorable ModuleSource.marker graph where
  placed := by
    intro node hnode
    obtain ⟨above, hlineage⟩ := exists_lineage hnode
    exact ⟨_, above, isLineage_of_mem_lineages _ hlineage, rfl⟩
  types := by decide
  top := by decide
  labels := by decide
  used := by
    have hnone : ∀ node ∈ graph.nodes, node.type ≠ .folder := by decide
    intro node hnode hfolder
    exact absurd hfolder (hnone node hnode)
  attached := by decide
  sources := by
    intro e he _
    obtain rfl := List.mem_singleton.1 he
    exact ⟨database, by simp [graph], rfl, rfl⟩
  readable := by
    intro paths h node path dependencies hplaced _ hdependencies
    obtain ⟨_, parts, hlies, rfl⟩ := hplaced
    obtain ⟨_, rfl⟩ := resolveDependencies_eq_ok_iff.1 hdependencies
    have hnode := hlies.mem
    simp only [graph, List.mem_cons, List.not_mem_nil, or_false] at hnode
    rcases hnode with rfl | rfl | rfl | rfl | rfl | rfl | rfl
    · rw [dependenciesOf_of_ne (by decide)]
      exact readsBack_settings (by decide) none "live"
    · rw [dependenciesOf_of_ne (by decide)]
      exact readsBack_settings (by decide) (some "live") "prod"
    · rw [dependenciesOf_of_ne (by decide)]
      exact readsBack_settings (by decide) (some "prod") "south"
    · rw [dependenciesOf_of_ne (by decide)]
      exact readsBack_settings (by decide) (some "south") "inner"
    · rw [dependenciesOf_of_ne (by decide)]
      exact readsBack_settings (by decide) (some "inner") "web"
    · rw [dependenciesOf_of_ne (by decide)]
      exact readsBack_network
    · have hdependencies := dependenciesOf_database h hlies
      have hreads := readsBack_database
      rw [← hdependencies] at hreads
      exact hreads

/-- A file system with nothing but an empty folder. -/
def emptyWork : FileSystem :=
  ⟨.folder [("work", .folder [])], []⟩

/-- The two modules come back with everything they had. -/
theorem importTree_unpack : DistinctIds graph.nodes ∧ IsRestorable ModuleSource.marker graph ∧
    (∀ name ∈ ["work"], Path.IsPlain name) ∧
    emptyWork.root.find? ["work"] = some (.folder []) ∧
    ∃ archive unpacked imported kept rename,
      Archive.ofGraph store ModuleSource.marker graph = .ok archive ∧
        archive.unpack (Path.absolute ["work"]) emptyWork = .ok unpacked ∧
        importTree unpacked (Path.absolute ["work"]) .standard (NodeIds.ofSeed "") .empty =
          (.ok imported, kept) ∧
        IsRestored store rename graph imported kept := by
  have hplain : ∀ name ∈ ["work"], Path.IsPlain name := by
    rw [List.forall_mem_singleton]
    exact ⟨by decide, by decide, by decide, by decide⟩
  have hempty : emptyWork.root.find? ["work"] = some (.folder []) := by rfl
  obtain ⟨archive, harchive⟩ := exists_archive ModuleSource.marker
  obtain ⟨hunpacks, himports⟩ := importTree_unpack_ofGraph distinctIds isRestorable harchive hplain
    hempty .standard (NodeIds.ofSeed "")
  obtain ⟨unpacked, hunpacked⟩ := hunpacks.2 fitsBelow
  obtain ⟨imported, kept, rename, himported, hrestored⟩ := himports unpacked hunpacked
  exact ⟨distinctIds, isRestorable, hplain, hempty, archive, unpacked, imported, kept, rename,
    harchive, hunpacked, himported, hrestored⟩

end TwoModules

end InfraGraph
