import InfraGraph.Proofs.Import.Places

/-!
# Ids that come from directories

The id of a folder comes from its directory, unless it is in use already.  In use are ids of folders
that were met before, so nothing is drawn at random as long as no two folders of the tree have
directories that give the same id.
-/

namespace InfraGraph

theorem NodeIds.claim_of_new {draw : Nat → String} {ids claimed : NodeIds} {path id : String}
    (h : ids.claim draw path = (id, claimed)) (hnew : ofPath path ∉ ids.used) :
    id = ofPath path := by
  rw [claim, if_neg (by simpa using hnew)] at h
  exact (Prod.mk.inj h).1.symm

/-- Different ids, none of which is in use. -/
def NodeIds.AreFree (new used : List String) : Prop :=
  new.Nodup ∧ ∀ id ∈ new, id ∉ used

section Free

variable {own : String} {below rest used left after : List String}

/-- They are free below the folder that takes the first of them. -/
theorem NodeIds.AreFree.forBelow (h : AreFree (own :: (below ++ rest)) used) :
    AreFree below (own :: used) := by
  obtain ⟨hnodup, hnew⟩ := h
  rw [List.nodup_cons, List.mem_append, not_or, List.nodup_append] at hnodup
  rw [List.forall_mem_cons, List.forall_mem_append] at hnew
  refine ⟨hnodup.2.1, fun id hid hmem => ?_⟩
  rcases List.mem_cons.1 hmem with rfl | hmem
  · exact hnodup.1.1 hid
  · exact hnew.2.1 id hid hmem

/-- Ids stay free while others are taken into use. -/
theorem NodeIds.AreFree.forRest (h : AreFree (own :: (below ++ rest)) used)
    (hleft : left ⊆ own :: used ++ below) : AreFree rest left := by
  obtain ⟨hnodup, hnew⟩ := h
  rw [List.nodup_cons, List.mem_append, not_or, List.nodup_append] at hnodup
  rw [List.forall_mem_cons, List.forall_mem_append] at hnew
  refine ⟨hnodup.2.2.1, fun id hid hmem => ?_⟩
  rcases List.mem_append.1 (hleft hmem) with hmem | hmem
  · rcases List.mem_cons.1 hmem with rfl | hmem
    · exact hnodup.1.2 hid
    · exact hnew.2.2 id hid hmem
  · exact hnodup.2.2.2 id hmem id hid rfl

theorem NodeIds.subset_of_left (hleft : left ⊆ own :: used ++ below)
    (hafter : after ⊆ left ++ rest) : after ⊆ used ++ own :: (below ++ rest) := by
  intro id hid
  have hmem := List.mem_append.1 (hafter hid)
  have hbefore := @hleft id
  simp only [List.mem_append, List.mem_cons] at hbefore ⊢
  tauto

end Free

/-- The folders in the tree of an item, and those of the items behind it. -/
def FileTree.foldersOfItems (items : List (List String × FileTree)) :
    List (List String × List (String × FileTree)) :=
  items.flatMap fun item => foldersIn item.1 item.2

theorem FileTree.foldersOfItems_itemsIn (parts : List String) (es : List (String × FileTree)) :
    foldersOfItems (itemsIn parts es) = foldersOf parts es := by
  induction es with
  | nil => rfl
  | cons entry rest ih =>
      obtain ⟨name, t⟩ := entry
      rw [foldersOf, ← ih]
      rfl

namespace Scanner

/-- The ids that some folders would get if no other one were in use. -/
def ownIds (scanner : Scanner) (top : String)
    (places : List (List String × List (String × FileTree))) : List String :=
  places.map fun place => NodeIds.ofPath (scanner.relative (Path.walk top place.1))

theorem ownIds_append (scanner : Scanner) (top : String)
    (places places' : List (List String × List (String × FileTree))) :
    scanner.ownIds top (places ++ places') =
      scanner.ownIds top places ++ scanner.ownIds top places' :=
  List.map_append

variable {scanner : Scanner} {top : String} {depth : Nat} {parentId : Option String}
  {ids ids' : NodeIds} {items : List (List String × FileTree)} {found : List Visit}

/-- The own ids of the folders in an item that is a folder. -/
theorem ownIds_foldersOfItems_cons (parts : List String) (es : List (String × FileTree))
    (rest : List (List String × FileTree)) :
    scanner.ownIds top (FileTree.foldersOfItems ((parts, .folder es) :: rest)) =
      NodeIds.ofPath (scanner.relative (Path.walk top parts)) ::
        (scanner.ownIds top (FileTree.foldersOfItems (FileTree.itemsIn parts es)) ++
          scanner.ownIds top (FileTree.foldersOfItems rest)) := by
  rw [FileTree.foldersOfItems_itemsIn, ← ownIds_append]
  rfl

/-- Where the own ids of all folders are different and free, every folder that is kept has its own
one, and no other ids are taken into use. -/
theorem Visits.id_eq_ofPath (h : scanner.Visits top depth parentId ids items found ids')
    (hfree : NodeIds.AreFree (scanner.ownIds top (FileTree.foldersOfItems items)) ids.used) :
    (∀ v ∈ found, v.id = NodeIds.ofPath (v.path scanner top)) ∧
      ids'.used ⊆ ids.used ++ scanner.ownIds top (FileTree.foldersOfItems items) := by
  induction h with
  | done => exact ⟨fun _ hv => absurd hv List.not_mem_nil, List.subset_append_left _ _⟩
  | @pass depth parentId ids ids' parts t rest found hfolder _ ih =>
      have hnone : FileTree.foldersOfItems ((parts, t) :: rest) =
          FileTree.foldersOfItems rest := by
        cases t with
        | folder entries => cases hfolder
        | file contents => rfl
        | link target => rfl
      rw [hnone] at hfree ⊢
      exact ih hfree
  | @prune depth parentId ids claimed left ids' id parts entries rest found hclaim _ _ _ ihbelow
      ihrest =>
      rw [ownIds_foldersOfItems_cons] at hfree ⊢
      have hid := NodeIds.claim_of_new hclaim (hfree.2 _ List.mem_cons_self)
      rw [← hid] at hfree ⊢
      rw [(NodeIds.claim_new hclaim).2] at ihbelow
      have hleft := (ihbelow hfree.forBelow).2
      have hreleased : (left.release id).used ⊆ _ := List.Subset.trans List.erase_subset hleft
      obtain ⟨hfound, hafter⟩ := ihrest (hfree.forRest hreleased)
      exact ⟨hfound, NodeIds.subset_of_left hreleased hafter⟩
  | @keep depth parentId ids claimed left ids' id parts entries settled rest below found hclaim _ _
      _ _ _ ihbelow ihrest =>
      rw [ownIds_foldersOfItems_cons] at hfree ⊢
      have hid := NodeIds.claim_of_new hclaim (hfree.2 _ List.mem_cons_self)
      rw [← hid] at hfree ⊢
      rw [(NodeIds.claim_new hclaim).2] at ihbelow
      obtain ⟨hbelow, hleft⟩ := ihbelow hfree.forBelow
      obtain ⟨hfound, hafter⟩ := ihrest (hfree.forRest hleft)
      refine ⟨?_, NodeIds.subset_of_left hleft hafter⟩
      rw [List.forall_mem_cons, List.forall_mem_append]
      exact ⟨hid, hbelow, hfound⟩

/-- Seen from the root of the scan, the directory of a folder is made of the names that lead to
it. -/
theorem ownIds_foldersOf {entries : List (String × FileTree)}
    (hwell : (FileTree.folder entries).WellFormed)
    (hplain : (FileTree.folder entries).FoldersPlain) :
    scanner.ownIds scanner.root (FileTree.foldersOf [] entries) =
      (FileTree.foldersOf [] entries).map fun place => NodeIds.ofPath (Path.unsplit place.1) := by
  rw [ownIds]
  refine List.map_congr_left fun place hplace => ?_
  obtain ⟨name, rest, hparts, hfind⟩ := (FileTree.mem_foldersOf_iff hwell).1 hplace
  rw [hparts, List.nil_append, relative_eq (Path.components_walk (hplain _ _ hfind))]

/-- Where directories that give the same id are the same, nothing is drawn at random. -/
theorem IsImport.id_eq_ofPath {entries : List (String × FileTree)} {nodes : List Node}
    (h : scanner.IsImport entries found nodes)
    (hinj : ((FileTree.foldersOf [] entries).map fun place =>
      NodeIds.ofPath (Path.unsplit place.1)).Nodup) :
    ∀ v ∈ found, v.id = NodeIds.ofPath (Path.unsplit v.parts) := by
  obtain ⟨ids, hvisits⟩ := h.visits
  have hown : scanner.ownIds scanner.root (FileTree.foldersOfItems (FileTree.itemsIn [] entries)) =
      (FileTree.foldersOf [] entries).map fun place =>
        NodeIds.ofPath (Path.unsplit place.1) := by
    rw [FileTree.foldersOfItems_itemsIn, ownIds_foldersOf h.wellFormed h.plain]
  intro v hv
  rw [← h.path_eq hv]
  exact (hvisits.id_eq_ofPath ⟨hown ▸ hinj, by simp [NodeIds.empty]⟩).1 v hv

end Scanner

end InfraGraph
