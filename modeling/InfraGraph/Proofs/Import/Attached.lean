import InfraGraph.Proofs.Archive.Failures
import InfraGraph.Proofs.Attachment.PlainStore
import InfraGraph.Proofs.Import.Places

/-!
# Imported files are in the store

What a scan finds beside configuration files is referred to by the nodes and put into the store,
in the same order.  So after an import into a store in memory that was empty before, the records of
the store are those of the references, every reference gives back its file, and no attached file
keeps the imported graph from being generated.
-/

namespace InfraGraph

/-- The folder that a node comes from: the labels from the top down to the node lead to it. -/
def Node.IsFrom (node : Node) (nodes : List Node) (entries es : List (String × FileTree)) : Prop :=
  ∃ above, IsLineage nodes (node :: above) ∧
    (FileTree.folder entries).find? ((node :: above).map (·.label)).reverse = some (.folder es)

/-- The store has the record of a file that a node refers to, and gives its contents back. -/
structure MemoryStore.Attaches (store : MemoryStore) (node : Node) (file : FileRef)
    (contents : ByteArray) : Prop where
  record : ∃ record, store.records.find? file.fileId = some record ∧ record.id = file.fileId ∧
    record.name = file.fileName ∧ record.nodeId = node.id ∧ record.size = contents.size
  get : store.get file.fileId = .ok (some contents)

/-- The store has exactly the files that the nodes of a graph refer to, as they are in the folders
that the nodes come from. -/
structure MemoryStore.HasFilesOf (store : MemoryStore) (g : Graph)
    (entries : List (String × FileTree)) : Prop where
  ids : (g.nodes.flatMap fun node => node.files.map (·.fileId)).Perm store.records.keys
  files : ∀ node ∈ g.nodes, ∃ es, node.IsFrom g.nodes entries es ∧ ∀ file ∈ node.files,
    ∃ contents, Entries.find? file.fileName es = some (.file contents) ∧
      store.Attaches node file contents

theorem Visit.mem_uploads {v : Visit} {u : Upload} (h : u ∈ v.uploads) :
    u.nodeId = v.id ∧ (u.name, u.contents) ∈ FileTree.plainFiles v.entries := by
  obtain ⟨file, hfile, rfl⟩ := List.mem_map.1 h
  exact ⟨rfl, (List.mem_filter.1 hfile).1⟩

namespace Scanner.IsImport

variable {scanner : Scanner} {entries : List (String × FileTree)} {found : List Visit}
  {nodes : List Node} {v : Visit} {node : Node} {store : MemoryStore}

/-- No file is put into the store twice. -/
theorem nodup_uploads (h : scanner.IsImport entries found nodes) :
    (found.flatMap fun v => v.uploads).Nodup := by
  have hids : (found.map (·.id)).Nodup := h.ids_eq ▸ h.distinctIds
  refine List.nodup_flatMap.2 ⟨fun v hv => ?_, (List.pairwise_map.1 hids).imp fun hne u hv hw => ?_⟩
  · refine (v.pairwise_uploads (h.ascending hv)).imp fun hlt heq => ?_
    rw [heq] at hlt
    exact lt_irrefl _ (Text.bytes_lt_iff.1 hlt)
  · exact hne ((Visit.mem_uploads hv).1.symm.trans (Visit.mem_uploads hw).1)

/-- The ids of the references are those of the records of the files, in the same order. -/
theorem fileIds_eq (h : scanner.IsImport entries found nodes) :
    (nodes.flatMap fun node => node.files.map (·.fileId)) =
      (found.flatMap fun v => v.uploads).map fun u => u.record.id := by
  have hmakes : found.map (fun v => v.uploads.map fun u => u.record.id) =
      nodes.map fun node => node.files.map (·.fileId) := by
    refine map_eq_map_of_forall₂ (h.makes.imp fun v node hmakes => ?_)
    rw [hmakes.files_eq, List.map_map]
    rfl
  rw [List.map_flatMap, List.flatMap_def, List.flatMap_def, hmakes]

/-- A reference comes from a file in the folder of its node. -/
theorem exists_upload (h : scanner.IsImport entries found nodes) (hv : v ∈ found)
    (hmakes : v.Makes scanner node) {file : FileRef} (hfile : file ∈ node.files) :
    ∃ u ∈ found.flatMap fun v => v.uploads, u.reference = file ∧ u.nodeId = node.id ∧
      Entries.find? file.fileName v.entries = some (.file u.contents) := by
  rw [hmakes.files_eq] at hfile
  obtain ⟨u, hu, rfl⟩ := List.mem_map.1 hfile
  obtain ⟨hid, hplain⟩ := Visit.mem_uploads hu
  exact ⟨u, List.mem_flatMap.2 ⟨v, hv, hu⟩, rfl, hid.trans hmakes.id_eq.symm,
    (h.ascending hv).find?_eq_some_iff.2 (FileTree.mem_plainFiles.1 hplain)⟩

theorem isFrom (h : scanner.IsImport entries found nodes) (hv : v ∈ found) (hnode : node ∈ nodes)
    (hmakes : v.Makes scanner node) : node.IsFrom nodes entries v.entries := by
  obtain ⟨above, hlineage, hnames⟩ := h.exists_lineage hv hnode hmakes
  exact ⟨above, hlineage, hnames ▸ (h.find?_eq hv).2⟩

end Scanner.IsImport

/-- A store that holds the file of a reference attaches it to the node. -/
theorem MemoryStore.HoldsUploads.attaches {store : MemoryStore} {uploads : List Upload}
    (h : store.HoldsUploads uploads) (hapart : TellApart uploads) {u : Upload} (hu : u ∈ uploads)
    {node : Node} (hid : u.nodeId = node.id) : store.Attaches node u.reference u.contents :=
  ⟨⟨u.record, (h.found u hu hapart).1, rfl, rfl, hid, rfl⟩, h.get hapart hu⟩

section Import

variable {fs : FileSystem} {root : String} {options : LayoutOptions Float} {draw : Nat → String}
  {imported : ImportedGraph} {store : MemoryStore}

/-- After an import into a store in memory that was empty, the store has exactly the files that
nodes refer to, and none of them keeps the graph from being generated. -/
theorem importTree_hasFilesOf (hwell : fs.root.WellFormed) (hplain : fs.root.FoldersPlain)
    (hcollision : ∀ output uploads, scanTree fs root draw = .ok (output, uploads) →
      NoCollision uploads)
    (h : importTree fs root options draw MemoryStore.empty = (.ok imported, store)) :
    ∃ entries, fs.list root = .ok entries ∧ store.HasFilesOf imported.graph entries ∧
      ∀ moduleBase e, Archive.ofGraph store moduleBase imported.graph = .error e →
        e.isOfAttachment = false := by
  obtain ⟨output, uploads, hscan, hupload, hreconstruct⟩ := exists_scanTree_of_importTree h
  obtain ⟨entries, found, hlist, _, himport, _, _, rfl, hvalid⟩ :=
    exists_found_of_scanTree (fun _ => wellFormed_and_plain_of_list hwell hplain) hscan
      hreconstruct
  rw [MemoryStore.runIn_uploadAll hvalid] at hupload
  obtain rfl := (Prod.mk.inj hupload).2
  have hholds := MemoryStore.holdsUploads_addAll (found.flatMap fun v => v.uploads)
  have hapart := (hcollision _ _ hscan).tellApart hvalid
  refine ⟨entries, hlist, ⟨?_, fun node hnode => ?_⟩, fun moduleBase e he => ?_⟩
  · rw [himport.fileIds_eq]
    exact hholds.perm_keys hapart himport.nodup_uploads
  · obtain ⟨v, hv, hmakes⟩ := himport.exists_visit hnode
    refine ⟨v.entries, himport.isFrom hv hnode hmakes, fun file hfile => ?_⟩
    obtain ⟨u, hu, rfl, hid, hfind⟩ := himport.exists_upload hv hmakes hfile
    exact ⟨u.contents, hfind, hholds.attaches hapart hu hid⟩
  · refine Archive.isOfAttachment_ofGraph himport.distinctIds (fun node hnode file hfile => ?_) he
    obtain ⟨v, hv, hmakes⟩ := himport.exists_visit hnode
    obtain ⟨u, hu, rfl, hid, _⟩ := himport.exists_upload hv hmakes hfile
    exact ⟨hvalid u hu, u.contents, Archive.storedContents?_eq_some_iff.2 (hholds.get hapart hu)⟩

end Import

namespace SharedNotes

def notes : ByteArray := "owner: network".toUTF8

/-- The same notes lie beside settings and in the folder below. -/
def tree : FileSystem :=
  ⟨.folder [
    ("live", .folder [
      ("account.hcl", .file ByteArray.empty),
      ("notes.txt", .file notes),
      ("vpc", .folder [("notes.txt", .file notes)])]),
    ("terragrunt.hcl", .file ByteArray.empty)], []⟩

theorem wellFormed_tree : tree.root.WellFormed := by
  simp only [tree, FileTree.WellFormed, FileTree.AllWellFormed, Entries.Ascending, and_true,
    true_and]
  decide

/-- What the scan of the tree finds. -/
def uploads : List Upload :=
  match scanTree tree "/" (NodeIds.ofSeed "") with
  | .ok (_, uploads) => uploads
  | .error _ => []

/-- The notes of one of the two nodes, with the id that its directory gives it. -/
def notesOf (nodeId : String) : Upload :=
  ⟨nodeId, "notes.txt", notes⟩

theorem eq_notesOf_of_mem_uploads : ∀ u ∈ uploads,
    u = notesOf "d0dbe915091d400bd8ee7f27f0791303" ∨
      u = notesOf "e4ad692fa26369ddc99a9804e8ea685c" := by
  have hall : ∀ u ∈ uploads,
      u.nodeId ∈ ["d0dbe915091d400bd8ee7f27f0791303", "e4ad692fa26369ddc99a9804e8ea685c"] ∧
        u.name = "notes.txt" ∧ u.contents = notes := by
    decide +kernel
  intro u hu
  obtain ⟨nodeId, name, contents⟩ := u
  obtain ⟨hid, rfl, rfl⟩ := hall _ hu
  simpa [notesOf] using hid

theorem digest_ne :
    ContentDigest.of ⟨(notesOf "d0dbe915091d400bd8ee7f27f0791303").identity.toArray⟩ ≠
      ContentDigest.of ⟨(notesOf "e4ad692fa26369ddc99a9804e8ea685c").identity.toArray⟩ := by
  decide +kernel

theorem noCollision_uploads : NoCollision uploads := by
  refine ⟨fun a ha b hb _ => ?_, fun a ha b hb hdigest => ?_⟩
  · rcases eq_notesOf_of_mem_uploads a ha with rfl | rfl <;>
      rcases eq_notesOf_of_mem_uploads b hb with rfl | rfl <;> rfl
  · rcases eq_notesOf_of_mem_uploads a ha with rfl | rfl <;>
      rcases eq_notesOf_of_mem_uploads b hb with rfl | rfl
    · rfl
    · exact absurd hdigest digest_ne
    · exact absurd hdigest.symm digest_ne
    · rfl

/-- Both notes are in the store after the import. -/
theorem hasFilesOf_tree : tree.root.WellFormed ∧ tree.root.FoldersPlain ∧
    (∀ output uploads, scanTree tree "/" (NodeIds.ofSeed "") = .ok (output, uploads) →
      NoCollision uploads) ∧
    ∃ imported store, importTree tree "/" .standard (NodeIds.ofSeed "") MemoryStore.empty =
        (.ok imported, store) ∧
      ∃ entries, tree.list "/" = .ok entries ∧ store.HasFilesOf imported.graph entries ∧
        ∀ moduleBase e, Archive.ofGraph store moduleBase imported.graph = .error e →
          e.isOfAttachment = false := by
  have hplain : tree.root.FoldersPlain := (FileTree.foldersPlain_iff wellFormed_tree).2 (by decide)
  have hcollision : ∀ output uploads, scanTree tree "/" (NodeIds.ofSeed "") =
      .ok (output, uploads) → NoCollision uploads := by
    intro output found hscan
    have hnone := noCollision_uploads
    rw [uploads, hscan] at hnone
    exact hnone
  have hok : (importTree tree "/" .standard (NodeIds.ofSeed "") MemoryStore.empty).1.isOk =
      true := by
    decide +kernel
  obtain ⟨imported, store, himport⟩ := exists_ok_of_isOk_fst hok
  exact ⟨wellFormed_tree, hplain, hcollision, imported, store, himport,
    importTree_hasFilesOf wellFormed_tree hplain hcollision himport⟩

end SharedNotes

end InfraGraph
