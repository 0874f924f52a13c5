import InfraGraph.Proofs.Archive.Names

/-!
# Failures that attached files cause

Generation may fail because of attached files: one has a name with which it can't be placed, isn't
in the store, or the store itself fails.  Where all files of all nodes have valid names and can be
had back from the store, it fails for other reasons only.
-/

namespace InfraGraph

/-- The failure is due to an attached file, or to the store that files are in. -/
def GraphError.isOfAttachment : GraphError → Bool
  | invalidAttachmentName _ _ => true
  | attachmentMissing _ _ _ => true
  | attachmentStore _ => true
  | _ => false

section Steps

variable {g : Graph} {moduleBase : String} {paths : PathMap} {e : GraphError}

theorem isOfAttachment_resolveDependencies {nodeId nodePath : String} {edges : List Edge}
    (h : resolveDependencies nodeId nodePath edges paths = .error e) :
    e.isOfAttachment = false := by
  obtain ⟨dependencies, edge, _, hadd⟩ := exists_of_foldlM_eq_error h
  unfold addDependency at hadd
  split at hadd
  · exact Except.error.inj hadd ▸ rfl
  · split at hadd
    · exact Except.error.inj hadd ▸ rfl
    · split at hadd
      · exact Except.error.inj hadd ▸ rfl
      · split at hadd
        · exact Except.error.inj hadd ▸ rfl
        · cases hadd

namespace Archive

theorem isOfAttachment_placeFile {files : SortedMap OwnedFile} {path owner : String}
    {contents : ByteArray} (h : placeFile paths files path owner contents = .error e) :
    e.isOfAttachment = false := by
  unfold placeFile at h
  split at h
  · exact Except.error.inj h ▸ rfl
  · split at h
    · exact Except.error.inj h ▸ rfl
    · cases h

theorem isOfAttachment_placeConfig {node : Node} {nodePath : String}
    {files : SortedMap OwnedFile}
    (h : placeConfig g moduleBase paths node nodePath files = .error e) :
    e.isOfAttachment = false := by
  unfold placeConfig at h
  split at h
  · rcases bind_eq_error_iff.1 h with hdependencies | ⟨dependencies, _, hplace⟩
    · exact isOfAttachment_resolveDependencies hdependencies
    · exact isOfAttachment_placeFile hplace
  · cases h

theorem mem_of_lastNode? {id : String} {node : Node} (h : lastNode? g id = some node) :
    node ∈ g.nodes :=
  List.mem_reverse.1 (List.mem_of_find?_eq_some h)

/-- Nodes whose attached files have valid names are placed, or fail for other reasons. -/
theorem isOfAttachment_placeNode {placement : Placement} {entry : String × String}
    (hvalid : ∀ node ∈ g.nodes, ∀ file ∈ node.files,
      Attachment.isValidName file.fileName = true)
    (h : placeNode g moduleBase paths placement entry = .error e) : e.isOfAttachment = false := by
  unfold placeNode at h
  split at h
  · cases h
  · rename_i node hnode
    rcases bind_eq_error_iff.1 h with hconfig | ⟨files, _, h⟩
    · exact isOfAttachment_placeConfig hconfig
    · rcases bind_eq_error_iff.1 h with hpending | ⟨pending, _, h⟩
      · obtain ⟨pending, file, hfile, hnote⟩ := exists_of_foldlM_eq_error hpending
        rw [notePending, if_pos (hvalid node (mem_of_lastNode? hnode) file hfile)] at hnote
        cases hnote
      · cases h

variable {σ : Type} [AttachmentStore σ] {store : σ}

/-- Attached files with valid names that the store has cause no failure. -/
theorem isOfAttachment_ofGraph (hids : DistinctIds g.nodes)
    (hfiles : ∀ node ∈ g.nodes, ∀ file ∈ node.files,
      Attachment.isValidName file.fileName = true ∧
        ∃ contents, storedContents? store file.fileId = some contents)
    (h : ofGraph store moduleBase g = .error e) : e.isOfAttachment = false := by
  unfold ofGraph at h
  rcases bind_eq_error_iff.1 h with hresolve | ⟨paths, _, h⟩
  · obtain ⟨node, _, _, _, rfl⟩ := exists_missingLabel_of_resolvePaths hids hresolve
    rfl
  rcases bind_eq_error_iff.1 h with hunique | ⟨_, _, h⟩
  · unfold ensureUnique at hunique
    split at hunique
    · exact Except.error.inj hunique ▸ rfl
    · cases hunique
  split at h
  · exact Except.error.inj h ▸ rfl
  rcases bind_eq_error_iff.1 h with hplace | ⟨placement, hplace, h⟩
  · obtain ⟨before, entry, _, hnode⟩ := exists_of_foldlM_eq_error hplace
    exact isOfAttachment_placeNode (fun node hnode file hfile => (hfiles node hnode file hfile).1)
      hnode
  rcases bind_eq_error_iff.1 h with hfetch | ⟨fetched, _, h⟩
  · -- What is fetched are files of nodes, so the store has them.
    have hpending := (foldlM_placeNode_eq_ok_iff.1 hplace).2.2
    rw [List.append_nil] at hpending
    have hstored : ∀ p ∈ (placedNodes g paths.toList).flatMap pendingFiles,
        ∃ contents, storedContents? store p.file.fileId = some contents := by
      intro p hp
      obtain ⟨placed, hplaced, hp⟩ := List.mem_flatMap.1 hp
      obtain ⟨file, hfile, rfl⟩ := List.mem_map.1 hp
      exact (hfiles placed.1 (mem_of_lastNode? (mem_placedNodes_iff.1 hplaced).1) file hfile).2
    rw [hpending, List.reverse_reverse, mapM_fetch_eq_ok_iff.2 ⟨hstored, rfl⟩] at hfetch
    cases hfetch
  rcases bind_eq_error_iff.1 h with hattach | ⟨files, _, h⟩
  · obtain ⟨before, entry, _, hplace⟩ := exists_of_foldlM_eq_error hattach
    exact isOfAttachment_placeFile hplace
  · cases h

end Archive

end Steps

end InfraGraph
