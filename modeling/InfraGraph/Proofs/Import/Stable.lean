import InfraGraph.Proofs.Import.PathIds
import InfraGraph.Proofs.Import.Restorable
import InfraGraph.Proofs.RoundTrip

/-!
# Importing what an imported graph generates

An imported graph is generated as an archive again, and the archive is unpacked and imported.  If
the graph can be restored and its ids are those of its directories, it comes back as it was: ids
come from directories, and these are the same in both trees.
-/

namespace InfraGraph

/-! ### Sameness -/

/-- The node is there again.  Its files may have other ids, but they have the same names. -/
structure Node.IsSame (node again : Node) : Prop where
  eq : again = { node with files := again.files }
  fileNames : again.files.map (·.fileName) = node.files.map (·.fileName)

/-- The file is attached again, under its name and with the contents that it had. -/
structure FileRef.IsKept {σ : Type} [AttachmentStore σ] (store : σ) (kept : MemoryStore)
    (file again : FileRef) : Prop where
  fileName : again.fileName = file.fileName
  contents : ∃ contents, Archive.storedContents? store file.fileId = some contents ∧
    kept.get again.fileId = .ok (some contents)

/-- An edge without its id. -/
def Edge.withoutId (edge : Edge) : Edge :=
  { edge with id := "" }

/-- A graph that was imported has come back. -/
structure Graph.IsSame {σ : Type} [AttachmentStore σ] (store : σ) (g : Graph)
    (again : ImportedGraph) (kept : MemoryStore) : Prop where
  faults : again.faults.toList = []
  nodes : List.Forall₂ Node.IsSame g.nodes again.graph.nodes
  /-- The same files have the same contents, as long as digests tell files apart. -/
  contents : TellApart (g.uploads store id) →
    List.Forall₂ (fun node copy => List.Forall₂ (FileRef.IsKept store kept) node.files copy.files)
      g.nodes again.graph.nodes
  edges : (again.graph.edges.map Edge.withoutId).Perm (g.edges.map Edge.withoutId)
  /-- Where two edges join the same nodes, which of them has its name in its id is a matter of their
  order. -/
  edgeIds : (g.edges.map fun edge => (edge.source, edge.target)).Nodup →
    again.graph.edges.Perm g.edges

/-- The ids of nodes are those that come from their directories. -/
def Graph.HasPathIds (g : Graph) : Prop :=
  ∀ node parts, LiesAt g.nodes node parts → node.id = NodeIds.ofPath (Path.unsplit parts)

theorem forall₂_of_map_eq {α β γ : Type} {f : α → γ} {h : β → γ} {l : List α} {m : List β}
    (heq : l.map f = m.map h) :
    List.Forall₂ (fun a b => (a ∈ l ∧ b ∈ m) ∧ f a = h b) l m := by
  have hall : List.Forall₂ (fun a b => f a = h b) l m := by
    rw [← List.forall₂_map_right_iff (R := fun a c => f a = c), ← List.forall₂_map_left_iff
      (R := Eq), heq, List.forall₂_eq_eq_eq]
  have hleft := (List.forall₂_and_left _ _).2 ⟨fun a (ha : a ∈ l) => ha, hall⟩
  have hright := (List.forall₂_and_left _ _).2 ⟨fun b (hb : b ∈ m) => hb, hleft.flip⟩
  exact hright.flip.imp fun a b hab => ⟨⟨hab.2.1, hab.1⟩, hab.2.2⟩

/-! ### Edges of imported graphs -/

section Edges

variable {nodes : List ScannedNode} {taken : List String} {dependencies : List DependencyReference}
  {edges : List Edge}

/-- The edge with given ends, apart from its id. -/
def Edge.ofEnds (ends : String × String × Option String) : Edge :=
  ⟨"", ends.1, ends.2.1, ends.2.2, true, some "out", some "in"⟩

theorem map_withoutId_edgesOf (h : edgesOf nodes taken dependencies = .ok edges) :
    edges.map Edge.withoutId = (edges.map Edge.ends).map Edge.ofEnds := by
  rw [List.map_map]
  induction dependencies generalizing taken edges with
  | nil =>
      obtain rfl := Except.ok.inj h
      rfl
  | cons d dependencies ih =>
      obtain ⟨target, rest, _, hrest, rfl⟩ := edgesOf_cons_eq_ok h
      rw [List.map_cons, List.map_cons, ih hrest]
      rfl

/-- The edge with given ends, if no other one joins its nodes. -/
def Edge.between (ends : String × String × Option String) : Edge :=
  { Edge.ofEnds ends with id := edgeStem ends.1 ends.2.1 }

theorem map_between_ends (h : edgesOf nodes taken dependencies = .ok edges)
    (hids : ∀ edge ∈ edges, edge.id = edgeStem edge.source edge.target) :
    (edges.map Edge.ends).map Edge.between = edges := by
  have hself : edges.map (fun edge => { edge.withoutId with id := edge.id }) = edges :=
    List.map_id' edges
  have hwithout := map_withoutId_edgesOf h
  rw [List.map_map] at hwithout ⊢
  nth_rewrite 2 [← hself]
  refine List.map_congr_left fun edge hedge => ?_
  have hsame : edge.withoutId = Edge.ofEnds edge.ends :=
    List.map_inj_left.1 hwithout edge hedge
  rw [hsame, hids edge hedge]
  rfl

theorem enabled_of_mem_edgesOf (h : edgesOf nodes taken dependencies = .ok edges) :
    ∀ edge ∈ edges, edge.enabled = true := by
  intro edge hedge
  obtain ⟨d, _, hsaid, _⟩ := exists_of_mem_edgesOf h hedge
  exact hsaid.enabled

/-- Edges that join different nodes have ids without names. -/
theorem id_eq_edgeStem (h : edgesOf nodes taken dependencies = .ok edges)
    (hnodes : ∀ n ∈ nodes, '_' ∉ n.node.id.toList)
    (hsources : ∀ d ∈ dependencies, '_' ∉ d.sourceId.toList)
    (hpairs : (edges.map fun edge => (edge.source, edge.target)).Nodup)
    (htaken : ∀ edge ∈ edges, edgeStem edge.source edge.target ∉ taken) :
    ∀ edge ∈ edges, edge.id = edgeStem edge.source edge.target := by
  induction dependencies generalizing taken edges with
  | nil =>
      obtain rfl := Except.ok.inj h
      exact fun _ hedge => absurd hedge List.not_mem_nil
  | cons d dependencies ih =>
      have hplain : ∀ edge ∈ edges, '_' ∉ edge.source.toList ∧ '_' ∉ edge.target.toList := by
        intro edge hedge
        obtain ⟨d', hd', hsaid, n, hn, _, hid⟩ := exists_of_mem_edgesOf h hedge
        rw [hsaid.source, ← hid]
        exact ⟨hsources d' hd', hnodes n hn⟩
      obtain ⟨target, rest, _, hrest, rfl⟩ := edgesOf_cons_eq_ok h
      rw [List.forall_mem_cons] at hsources htaken hplain ⊢
      rw [List.map_cons, List.nodup_cons] at hpairs
      have hown : edgeId taken d.sourceId target d.name = edgeStem d.sourceId target := by
        have hnew : edgeStem d.sourceId target ∉ taken := htaken.1
        rw [edgeId, ← edgeStem, if_neg (by simpa using hnew)]
      refine ⟨hown, ih hrest hsources.2 hpairs.2 fun edge hedge hmem => ?_⟩
      rcases List.mem_cons.1 hmem with hsame | hmem
      · rw [hown, ← String.append_empty (s := edgeStem edge.source edge.target),
          ← String.append_empty (s := edgeStem d.sourceId target)] at hsame
        obtain ⟨hsource, htarget, _⟩ := edgeStem_append_inj (hplain.2 edge hedge).1
          (hplain.2 edge hedge).2 hplain.1.1 hplain.1.2 hsame
        refine hpairs.1 (List.mem_map.2 ⟨edge, hedge, ?_⟩)
        rw [hsource, htarget]
      · exact htaken.2 edge hedge hmem

end Edges

/-- The files of a node are in the order of their names. -/
theorem Scanner.IsImport.pairwise_fileNames {scanner : Scanner}
    {entries : List (String × FileTree)} {found : List Visit} {nodes : List Node}
    (h : scanner.IsImport entries found nodes) {v : Visit} {node : Node} (hv : v ∈ found)
    (hmakes : v.Makes scanner node) : (node.files.map (·.fileName)).Pairwise (· < ·) := by
  obtain ⟨position, size, rfl⟩ := hmakes
  change ((v.uploads.map Upload.reference).map (·.fileName)).Pairwise (· < ·)
  rw [List.map_map]
  exact List.pairwise_map.2 ((v.pairwise_uploads (h.ascending hv)).imp Text.bytes_lt_iff.1)

/-! ### Coming back -/

/-- A graph that was imported, the tree that it makes, and the import of this tree. -/
structure IsReimport {σ : Type} [AttachmentStore σ] (store : σ) (moduleBase : String)
    (scanner scanner' : Scanner) (entries entries' : List (String × FileTree))
    (found found' : List Visit) (g : Graph) (again : ImportedGraph) (rename : String → String)
    (kept : MemoryStore) : Prop where
  first : scanner.IsImport entries found g.nodes
  second : scanner'.IsImport entries' found' again.graph.nodes
  usable : ∀ v ∈ found, v.settled.fault = none
  restorable : IsRestorable moduleBase g
  restored : IsRestored store rename g again kept
  pathIds : g.HasPathIds
  pathIds' : ∀ v ∈ found', v.id = NodeIds.ofPath (Path.unsplit v.parts)

namespace IsReimport

variable {σ : Type} [AttachmentStore σ] {store : σ} {moduleBase : String}
  {scanner scanner' : Scanner} {entries entries' : List (String × FileTree)}
  {found found' : List Visit} {g : Graph} {again : ImportedGraph} {rename : String → String}
  {kept : MemoryStore} {node copy : Node}
  (h : IsReimport store moduleBase scanner scanner' entries entries' found found' g again rename
    kept)

include h

theorem exists_original (hcopy : copy ∈ again.graph.nodes) :
    ∃ node ∈ g.nodes, node.IsCopy rename copy ∧
      copy.files.Perm ((node.uploads store copy.id).map Upload.reference) := by
  obtain ⟨order, hperm, hcopies⟩ := h.restored.nodes
  obtain ⟨node, hnode, hof⟩ := exists_mem_of_forall₂ hcopies.flip hcopy
  exact ⟨node, hperm.mem_iff.1 hnode, hof⟩

theorem labels :
    ∀ node ∈ g.nodes, node.type ≠ .root ∧ sanitizeLabel node.label = node.label :=
  fun node hnode => ⟨(h.restorable.types node hnode).1, h.restorable.labels node hnode⟩

theorem labels' :
    ∀ copy ∈ again.graph.nodes, copy.type ≠ .root ∧ sanitizeLabel copy.label = copy.label := by
  intro copy hcopy
  obtain ⟨node, hnode, hof, _⟩ := h.exists_original hcopy
  rw [hof.type, hof.label]
  exact h.labels node hnode

/-- The copy of a node has its id, and lies where the node lies. -/
theorem exists_copy {parts : List String} (hlies : LiesAt g.nodes node parts) :
    ∃ copy ∈ again.graph.nodes, node.IsCopy rename copy ∧ LiesAt again.graph.nodes copy parts ∧
      copy.depth + 1 = parts.length ∧ copy.id = node.id := by
  obtain ⟨copy, hcopy, hof, hcopyLies, hdepth⟩ := h.restored.directories node parts hlies
  obtain ⟨w, hw, ⟨position, size, rfl⟩, rfl⟩ :=
    h.second.exists_visit_of_liesAt h.labels' hcopyLies
  refine ⟨_, hcopy, hof, hcopyLies, hdepth, ?_⟩
  rw [h.pathIds node _ hlies]
  exact h.pathIds' w hw

theorem rename_eq (hnode : node ∈ g.nodes) : rename node.id = node.id := by
  obtain ⟨parts, hlies⟩ := h.restorable.placed node hnode
  obtain ⟨copy, _, hof, _, _, hid⟩ := h.exists_copy hlies
  exact hof.id.symm.trans hid

/-- A node has the same directory as the one with its id that was imported again. -/
theorem isCopy_of_id_eq (hnode : node ∈ g.nodes) (hcopy : copy ∈ again.graph.nodes)
    (hid : node.id = copy.id) : node.IsCopy rename copy ∧ ∃ parts, LiesAt g.nodes node parts ∧
      LiesAt again.graph.nodes copy parts ∧ copy.depth + 1 = parts.length := by
  obtain ⟨parts, hlies⟩ := h.restorable.placed node hnode
  obtain ⟨copy', hcopy', hof, hcopyLies, hdepth, hid'⟩ := h.exists_copy hlies
  obtain rfl := h.restored.ids.eq_of_id_eq hcopy' hcopy (hid'.trans hid)
  exact ⟨hof, parts, hlies, hcopyLies, hdepth⟩

/-- Both imports keep the same directories, in the same order. -/
theorem parts_eq : found.map (·.parts) = found'.map (·.parts) := by
  have hperm : (found.map (·.parts)).Perm (found'.map (·.parts)) := by
    rw [List.perm_ext_iff_of_nodup (h.first.pairwise_parts.imp ne_of_lt)
      (h.second.pairwise_parts.imp ne_of_lt)]
    intro parts
    simp only [List.mem_map]
    constructor
    · rintro ⟨v, hv, rfl⟩
      obtain ⟨node, hnode, hmakes⟩ := h.first.exists_node hv
      obtain ⟨copy, _, _, hcopyLies, _⟩ :=
        h.exists_copy (h.first.liesAt h.labels hv hnode hmakes)
      obtain ⟨w, hw, _, hparts⟩ := h.second.exists_visit_of_liesAt h.labels' hcopyLies
      exact ⟨w, hw, hparts⟩
    · rintro ⟨w, hw, rfl⟩
      obtain ⟨copy, hcopy, hmakes⟩ := h.second.exists_node hw
      have hcopyLies := h.second.liesAt h.labels' hw hcopy hmakes
      obtain ⟨node, hnode, hof, _⟩ := h.exists_original hcopy
      obtain ⟨_, parts, hlies, hcopyLies', _⟩ :=
        h.isCopy_of_id_eq hnode hcopy ((h.rename_eq hnode).symm.trans hof.id.symm)
      obtain rfl := hcopyLies'.unique h.second.distinctIds hcopyLies
      obtain ⟨v, hv, _, hparts⟩ := h.first.exists_visit_of_liesAt h.labels hlies
      exact ⟨v, hv, hparts⟩
  exact hperm.eq_of_pairwise (fun a b _ _ hab hba => absurd hba (lt_asymm hab))
    h.first.pairwise_parts h.second.pairwise_parts

theorem ids_eq : g.nodes.map (·.id) = again.graph.nodes.map (·.id) := by
  have hfirst : found.map (·.id) = (found.map (·.parts)).map fun parts =>
      NodeIds.ofPath (Path.unsplit parts) := by
    rw [List.map_map]
    refine List.map_congr_left fun v hv => ?_
    obtain ⟨node, hnode, hmakes⟩ := h.first.exists_node hv
    have hid := h.pathIds node v.parts (h.first.liesAt h.labels hv hnode hmakes)
    obtain ⟨position, size, rfl⟩ := hmakes
    exact hid
  have hsecond : found'.map (·.id) = (found'.map (·.parts)).map fun parts =>
      NodeIds.ofPath (Path.unsplit parts) := by
    rw [List.map_map]
    exact List.map_congr_left h.pathIds'
  rw [h.first.ids_eq, h.second.ids_eq, hfirst, hsecond, h.parts_eq]

theorem fileNames_eq (hnode : node ∈ g.nodes) (hcopy : copy ∈ again.graph.nodes)
    (hid : node.id = copy.id) :
    copy.files.map (·.fileName) = node.files.map (·.fileName) ∧
      copy.files.Perm ((node.uploads store node.id).map Upload.reference) := by
  obtain ⟨node', hnode', hof, hperm⟩ := h.exists_original hcopy
  have hid' := hof.id
  rw [h.rename_eq hnode', ← hid] at hid'
  obtain rfl := h.first.distinctIds.eq_of_id_eq hnode' hnode hid'.symm
  rw [← hid] at hperm
  have hnames : (copy.files.map (·.fileName)).Perm (node'.files.map (·.fileName)) := by
    have hmapped := hperm.map (·.fileName)
    rwa [Node.uploads, List.map_map, List.map_map] at hmapped
  obtain ⟨v, hv, hmakes⟩ := h.first.exists_visit hnode
  obtain ⟨w, hw, hmakes'⟩ := h.second.exists_visit hcopy
  exact ⟨hnames.eq_of_pairwise (fun a b _ _ hab hba => absurd hba (lt_asymm hab))
    (h.second.pairwise_fileNames hw hmakes') (h.first.pairwise_fileNames hv hmakes), hperm⟩

theorem parentId_eq (hnode : node ∈ g.nodes) (hcopy : copy ∈ again.graph.nodes)
    (hid : node.id = copy.id) : copy.parentId = node.parentId := by
  obtain ⟨hof, parts, hlies, _⟩ := h.isCopy_of_id_eq hnode hcopy hid
  rw [hof.parentId]
  rcases h.restorable.cases_parent hlies with ⟨hnone, _⟩ | ⟨parent, front, hsome, habove, _⟩
  · rw [hnone, Option.map_none]
  · rw [hsome, Option.map_some, h.rename_eq habove.mem]

/-- Everything of a node but its box and the ids of its files is as it was. -/
theorem eq_of_id_eq (hnode : node ∈ g.nodes) (hcopy : copy ∈ again.graph.nodes)
    (hid : node.id = copy.id) (hframe : copy.frame = node.frame) :
    copy = { node with files := copy.files } := by
  obtain ⟨hof, parts, hlies, _, hdepth⟩ := h.isCopy_of_id_eq hnode hcopy hid
  obtain ⟨v, hv, hmakes, rfl⟩ := h.first.exists_visit_of_liesAt h.labels hlies
  have hdepth' : copy.depth = node.depth := by
    have hown := h.first.depth_eq hv
    obtain ⟨position, size, rfl⟩ := hmakes
    exact Nat.add_right_cancel (hdepth.trans hown.symm)
  have hparent := h.parentId_eq hnode hcopy hid
  have hvalues : copy.locals = node.locals ∧ copy.inputs = node.inputs := by
    rw [hof.locals, hof.inputs]
    by_cases houtput : node.type.hasOutput = true
    · rw [if_pos houtput, if_pos houtput]
      exact ⟨rfl, rfl⟩
    · rw [if_neg houtput, if_neg houtput]
      obtain ⟨position, size, rfl⟩ := hmakes
      have hnone := h.first.config_eq_none hv (h.usable v hv) houtput
      simp [Visit.node, Node.withFrame, Scanner.nodeOf, hnone]
  have hposition := (Prod.mk.inj hframe).1
  have hsize := (Prod.mk.inj hframe).2
  have htype := hof.type
  have hlabel := hof.label
  obtain ⟨hlocals, hinputs⟩ := hvalues
  cases copy
  cases node
  simp only at hid htype hparent hdepth' hlabel hlocals hinputs hposition hsize
  subst hid htype hparent hdepth' hlabel hlocals hinputs hposition hsize
  rfl

theorem isSame_nodes {options : LayoutOptions Float}
    (hframes : g.nodes.map Node.frame = Layout.frames options g.nodes)
    (hframes' : again.graph.nodes.map Node.frame = Layout.frames options again.graph.nodes) :
    List.Forall₂ Node.IsSame g.nodes again.graph.nodes := by
  have hkeys : g.nodes.map (fun node => (node.id, node.parentId)) =
      again.graph.nodes.map fun node => (node.id, node.parentId) := by
    refine map_eq_map_of_forall₂ ((forall₂_of_map_eq h.ids_eq).imp fun node copy hpair => ?_)
    rw [hpair.2, h.parentId_eq hpair.1.1 hpair.1.2 hpair.2]
  have hboxes : g.nodes.map (fun node => (node.id, node.frame)) =
      again.graph.nodes.map fun node => (node.id, node.frame) := by
    have hzip : ∀ nodes : List Node, nodes.map (fun node => (node.id, node.frame)) =
        (nodes.map (·.id)).zip (nodes.map Node.frame) := fun _ => List.zip_map'.symm
    rw [hzip, hzip, h.ids_eq, hframes, hframes', Layout.frames_congr options hkeys]
  refine (forall₂_of_map_eq hboxes).imp fun node copy hpair => ?_
  obtain ⟨⟨hnode, hcopy⟩, hsame⟩ := hpair
  obtain ⟨hid, hframe⟩ := Prod.mk.inj hsame
  exact ⟨h.eq_of_id_eq hnode hcopy hid hframe.symm, (h.fileNames_eq hnode hcopy hid).1⟩

theorem uploads_rename : g.uploads store rename = g.uploads store id :=
  List.flatMap_congr fun node hnode => by rw [h.rename_eq hnode, id]

theorem isKept (hstored : ∀ node ∈ g.nodes, ∀ file ∈ node.files,
      ∃ contents, Archive.storedContents? store file.fileId = some contents)
    (hapart : TellApart (g.uploads store id)) :
    List.Forall₂ (fun node copy => List.Forall₂ (FileRef.IsKept store kept) node.files copy.files)
      g.nodes again.graph.nodes := by
  refine (forall₂_of_map_eq h.ids_eq).imp fun node copy hpair => ?_
  obtain ⟨⟨hnode, hcopy⟩, hid⟩ := hpair
  obtain ⟨hnames, hperm⟩ := h.fileNames_eq hnode hcopy hid
  refine (forall₂_of_map_eq hnames.symm).imp fun file file' hfiles => ?_
  obtain ⟨⟨hfile, hfile'⟩, hname⟩ := hfiles
  obtain ⟨upload, hupload, rfl⟩ := List.mem_map.1 (hperm.mem_iff.1 hfile')
  obtain ⟨other, hother, rfl⟩ := List.mem_map.1 hupload
  -- Names tell the files of a node apart, so the upload is that of this very file.
  obtain ⟨v, hv, hmakes⟩ := h.first.exists_visit hnode
  obtain rfl := List.inj_on_of_nodup_map ((h.first.pairwise_fileNames hv hmakes).imp ne_of_lt)
    hfile hother hname
  obtain ⟨contents, hcontents⟩ := hstored node hnode file hfile
  have hmem : (⟨node.id, file.fileName, contents⟩ : Upload) ∈ g.uploads store rename := by
    rw [h.uploads_rename]
    refine List.mem_flatMap.2 ⟨node, hnode, List.mem_map.2 ⟨file, hfile, ?_⟩⟩
    rw [hcontents]
    rfl
  have hget := (h.restored.contents (h.uploads_rename ▸ hapart) _ hmem).2
  refine ⟨hname.symm, contents, hcontents, ?_⟩
  rw [hcontents, Option.getD_some]
  exact hget

/-! ### Edges -/

section Edges

variable (hedges : edgesOf (found.map (Visit.scannedNode scanner scanner.root)) []
    (found.flatMap (Visit.references scanner scanner.root)) = .ok g.edges)
  (hedges' : edgesOf (found'.map (Visit.scannedNode scanner' scanner'.root)) []
    (found'.flatMap (Visit.references scanner' scanner'.root)) = .ok again.graph.edges)

include hedges

theorem ends_perm : (again.graph.edges.map Edge.ends).Perm (g.edges.map Edge.ends) := by
  have hall : (g.edges.filter fun edge => edge.enabled) = g.edges :=
    List.filter_eq_self.2 (enabled_of_mem_edgesOf hedges)
  have hperm := h.restored.edges
  rw [hall] at hperm
  refine hperm.trans (List.Perm.of_eq (List.map_congr_left fun edge hedge => ?_))
  obtain ⟨d, hd, hsaid, n, hn, _, hid⟩ := exists_of_mem_edgesOf hedges hedge
  have hsame : ∀ v ∈ found, rename v.id = v.id := by
    intro v hv
    obtain ⟨node, hnode, position, size, rfl⟩ := h.first.exists_node hv
    exact h.rename_eq hnode
  obtain ⟨v, hv, hd⟩ := List.mem_flatMap.1 hd
  obtain ⟨w, hw, rfl⟩ := List.mem_map.1 hn
  have hsource : rename edge.source = edge.source := by
    rw [hsaid.source, Visit.sourceId_of_mem_references hd]
    exact hsame v hv
  have htarget : rename edge.target = edge.target := by
    rw [← hid]
    exact hsame w hw
  rw [Edge.endsUnder, hsource, htarget, Edge.ends]

include hedges'

theorem edges_perm (hpairs : (g.edges.map fun edge => (edge.source, edge.target)).Nodup) :
    again.graph.edges.Perm g.edges := by
  have hends := h.ends_perm hedges
  have hpairs' : (again.graph.edges.map fun edge => (edge.source, edge.target)).Nodup := by
    have hmapped := hends.map fun ends => (ends.1, ends.2.1)
    rw [List.map_map, List.map_map] at hmapped
    exact hmapped.nodup_iff.2 hpairs
  have hplain : ∀ v ∈ found, '_' ∉ v.id.toList := by
    intro v hv
    obtain ⟨node, hnode, hmakes⟩ := h.first.exists_node hv
    have hid := h.pathIds node _ (h.first.liesAt h.labels hv hnode hmakes)
    obtain ⟨position, size, rfl⟩ := hmakes
    have hid : v.id = _ := hid
    rw [hid]
    exact (NodeIds.isHexText_ofPath _).underscore_not_mem
  have hplain' : ∀ w ∈ found', '_' ∉ w.id.toList := by
    intro w hw
    rw [h.pathIds' w hw]
    exact (NodeIds.isHexText_ofPath _).underscore_not_mem
  have hids := id_eq_edgeStem hedges (List.forall_mem_map.2 hplain)
    (fun d hd => by
      obtain ⟨v, hv, hd⟩ := List.mem_flatMap.1 hd
      rw [Visit.sourceId_of_mem_references hd]
      exact hplain v hv) hpairs (by simp)
  have hids' := id_eq_edgeStem hedges' (List.forall_mem_map.2 hplain')
    (fun d hd => by
      obtain ⟨w, hw, hd⟩ := List.mem_flatMap.1 hd
      rw [Visit.sourceId_of_mem_references hd]
      exact hplain' w hw) hpairs' (by simp)
  rw [← map_between_ends hedges hids, ← map_between_ends hedges' hids']
  exact hends.map Edge.between

/-- The graph comes back. -/
theorem isSame {options : LayoutOptions Float}
    (hframes : g.nodes.map Node.frame = Layout.frames options g.nodes)
    (hframes' : again.graph.nodes.map Node.frame = Layout.frames options again.graph.nodes)
    (hstored : ∀ node ∈ g.nodes, ∀ file ∈ node.files,
      ∃ contents, Archive.storedContents? store file.fileId = some contents) :
    g.IsSame store again kept := by
  refine ⟨h.restored.faults, h.isSame_nodes hframes hframes', h.isKept hstored, ?_,
    h.edges_perm hedges hedges'⟩
  rw [map_withoutId_edgesOf hedges, map_withoutId_edgesOf hedges']
  exact (h.ends_perm hedges).map Edge.ofEnds

end Edges

end IsReimport

/-! ### There and back again -/

theorem isFile_of_importTree {σ : Type} [AttachmentStore σ] {fs : FileSystem} {root : String}
    {options : LayoutOptions Float} {draw : Nat → String} {store kept : σ}
    {imported : ImportedGraph}
    (h : importTree fs root options draw store = (.ok imported, kept)) :
    fs.isFile (Path.join root NodeType.defaultFileName) = true := by
  obtain ⟨output, uploads, hscan, _⟩ := exists_scanTree_of_importTree h
  unfold scanTree at hscan
  split at hscan
  · assumption
  · cases hscan

theorem frames_of_importTree {σ : Type} [AttachmentStore σ] {fs : FileSystem} {root : String}
    {options : LayoutOptions Float} {draw : Nat → String} {store kept : σ}
    {imported : ImportedGraph}
    (h : importTree fs root options draw store = (.ok imported, kept)) :
    imported.graph.nodes.map Node.frame = Layout.frames options imported.graph.nodes := by
  obtain ⟨output, uploads, _, _, hreconstruct⟩ := exists_scanTree_of_importTree h
  obtain ⟨_, edges, _, rfl⟩ := reconstruct_eq_ok_iff.1 hreconstruct
  rw [map_frame_layoutNodes, frames_layoutNodes]

section Again

variable {σ : Type} [AttachmentStore σ] {moduleBase : String} {fs fs' unpacked : FileSystem}
  {root : String} {here : List String} {options : LayoutOptions Float} {draw draw' : Nat → String}
  {store kept : σ} {imported : ImportedGraph} {archive : Archive}

/-- The folders of a tree that a graph makes have names of directories. -/
theorem Archive.IsTreeOf.foldersPlain {g : Graph} {paths : PathMap} {t : FileTree}
    (htree : Archive.IsTreeOf kept moduleBase g paths t) (h : resolvePaths g.nodes = .ok paths) :
    t.FoldersPlain := by
  intro parts es hfind
  have hkind : t.kindAt parts = some .folder := by
    rw [FileTree.kindAt, hfind]
    rfl
  rcases (htree.folder parts).1 hkind with rfl | ⟨node, _, hlies⟩
  · simp
  · exact hlies.isPlain h

/-- Where ids come from directories, the folders in the tree of a graph have directories that give
different ids. -/
theorem Archive.IsTreeOf.nodup_ofPath {g : Graph} {paths : PathMap}
    {es : List (String × FileTree)}
    (htree : Archive.IsTreeOf kept moduleBase g paths (.folder es)) (hids : DistinctIds g.nodes)
    (hpathIds : g.HasPathIds) :
    ((FileTree.foldersOf [] es).map fun place => NodeIds.ofPath (Path.unsplit place.1)).Nodup := by
  have hnodup := FileTree.nodup_foldersIn htree.wellFormed []
  rw [FileTree.foldersIn, List.map_cons, List.nodup_cons] at hnodup
  have hnode : ∀ place ∈ FileTree.foldersOf [] es, ∃ node, LiesAt g.nodes node place.1 := by
    intro place hplace
    obtain ⟨name, rest, hparts, hfind⟩ := (FileTree.mem_foldersOf_iff htree.wellFormed).1 hplace
    have hkind : (FileTree.folder es).kindAt (name :: rest) = some .folder := by
      rw [FileTree.kindAt, hfind]
      rfl
    obtain ⟨node, _, hlies⟩ := ((htree.folder _).1 hkind).resolve_left (by simp)
    rw [hparts]
    exact ⟨node, hlies⟩
  refine (List.nodup_map_iff_inj_on hnodup.2.of_map).2 fun place hplace place' hplace' hsame => ?_
  obtain ⟨node, hlies⟩ := hnode place hplace
  obtain ⟨node', hlies'⟩ := hnode place' hplace'
  rw [← hpathIds node _ hlies, ← hpathIds node' _ hlies'] at hsame
  obtain rfl := hids.eq_of_id_eq hlies.mem hlies'.mem hsame
  exact List.inj_on_of_nodup_map hnodup.2 hplace hplace' (hlies.unique hids hlies')

theorem exists_isImport (hwell : fs.root.WellFormed) (hplain : fs.root.FoldersPlain)
    (h : importTree fs root options draw store = (.ok imported, kept)) :
    ∃ entries found, fs.list root = .ok entries ∧
      (Scanner.mk root draw).IsImport entries found imported.graph.nodes ∧
      (imported.faults.toList = [] → ∀ v ∈ found, v.settled.fault = none) ∧
      edgesOf (found.map (Visit.scannedNode (Scanner.mk root draw) root)) []
        (found.flatMap (Visit.references (Scanner.mk root draw) root)) =
          .ok imported.graph.edges :=
  exists_isImport_of_importTree (fun _ => wellFormed_and_plain_of_list hwell hplain) h

/-- Ids come from directories if no two directories of the tree make the same id. -/
theorem hasPathIds_of_importTree (hwell : fs.root.WellFormed) (hplain : fs.root.FoldersPlain)
    (h : importTree fs root options draw store = (.ok imported, kept))
    (hfaults : imported.faults.toList = [])
    (hlabels : ∀ node ∈ imported.graph.nodes, sanitizeLabel node.label = node.label)
    (hdifferent : ∀ entries, fs.list root = .ok entries →
      ((FileTree.foldersOf [] entries).map fun place =>
        NodeIds.ofPath (Path.unsplit place.1)).Nodup) :
    imported.graph.HasPathIds := by
  obtain ⟨entries, found, hlist, hfirst, husable, _⟩ := exists_isImport hwell hplain h
  intro node parts hlies
  obtain ⟨v, hv, hmakes, rfl⟩ := hfirst.exists_visit_of_liesAt (fun node hnode =>
    ⟨(hfirst.types_ne (husable hfaults) node hnode).1, hlabels node hnode⟩) hlies
  obtain ⟨position, size, rfl⟩ := hmakes
  exact hfirst.id_eq_ofPath (hdifferent entries hlist) v hv

/-- A graph that was imported without faults comes back from its own tree, if labels can be names of
directories, ids come from directories and configuration files read back. -/
theorem exists_isSame_of_readsBack (hwell : fs.root.WellFormed) (hplain : fs.root.FoldersPlain)
    (h : importTree fs root options draw store = (.ok imported, kept))
    (hfaults : imported.faults.toList = []) (hpathIds : imported.graph.HasPathIds)
    (hlabels : ∀ node ∈ imported.graph.nodes, sanitizeLabel node.label = node.label)
    (hreads : ∀ paths, resolvePaths imported.graph.nodes = .ok paths →
      ∀ node path dependencies, IsPlaced imported.graph.nodes node path →
      node.type.hasOutput = true →
      resolveDependencies node.id path (imported.graph.outgoing node.id) paths =
        .ok dependencies →
      (Archive.configFile moduleBase node dependencies).ReadsBack node.type.module?)
    (harchive : Archive.ofGraph kept moduleBase imported.graph = .ok archive)
    (hhere : ∀ name ∈ here, Path.IsPlain name) (hempty : fs'.root.find? here = some (.folder []))
    (hunpack : archive.unpack (Path.absolute here) fs' = .ok unpacked) :
    ∃ again kept', importTree unpacked (Path.absolute here) options draw' MemoryStore.empty =
        (.ok again, kept') ∧ imported.graph.IsSame kept again kept' := by
  obtain ⟨entries, found, hlist, hfirst, husable, hedges⟩ := exists_isImport hwell hplain h
  have hg : IsRestorable moduleBase imported.graph :=
    hfirst.isRestorable (husable hfaults) (fun inner => FileSystem.find?_ne_folder_of_isFile hlist
      (NodeType.isPlain_defaultFileName _ List.mem_cons_self) (isFile_of_importTree h))
      hlabels hedges hreads
  have hids := hfirst.distinctIds
  obtain ⟨paths, hgenerable, _, hmade⟩ := exists_isTreeOf_unpack hids hg harchive hhere hempty
  obtain ⟨hfits, t, hfind, htree⟩ := hmade unpacked hunpack
  obtain ⟨again, kept', rename, h', hrestored⟩ :=
    exists_importTree_eq_ok hg hids hgenerable hhere hfits hfind htree options draw'
  obtain ⟨es, hes⟩ := FileTree.exists_entries_of_kindAt ((htree.folder []).2 (.inl rfl))
  obtain rfl : t = .folder es := by simpa using hes
  obtain ⟨entries', found', hlist', hsecond, _, hedges'⟩ :=
    exists_isImport_of_importTree (fun entries' hlist' => by
      rw [FileSystem.list_absolute hhere hfits.front hfind] at hlist'
      obtain rfl := Except.ok.inj hlist'
      exact ⟨htree.wellFormed, htree.foldersPlain hgenerable.resolved⟩) h'
  rw [FileSystem.list_absolute hhere hfits.front hfind] at hlist'
  obtain rfl := Except.ok.inj hlist'
  have hreimport : IsReimport kept moduleBase _ _ entries es found found' imported.graph again
      rename kept' :=
    ⟨hfirst, hsecond, husable hfaults, hg, hrestored, hpathIds,
      hsecond.id_eq_ofPath (htree.nodup_ofPath hids hpathIds)⟩
  refine ⟨again, kept', h', hreimport.isSame hedges hedges' (frames_of_importTree h)
    (frames_of_importTree h') fun node hnode file hfile => ?_⟩
  obtain ⟨parts, hlies⟩ := hg.placed node hnode
  exact hgenerable.stored _ ((Archive.mem_placedNodes_iff_isPlaced hids hgenerable.resolved).2
    (hg.isPlaced hlies)) file hfile

end Again

end InfraGraph
