import InfraGraph.Proofs.Import.Scan

/-!
# Scans in which nothing is wrong

A scan notes faults and goes on, gives ids back where a folder turns out to be empty, and puts nodes
together with what lies below them.  If it has noted nothing at the end, all of this comes down to
one walk over the folders: each of them is passed over with everything in it, or it is kept with the
nodes below it.  What holds of every such scan is shown along this walk.
-/

namespace InfraGraph

/-- The directory that some names lead to. -/
def Path.walk (top : String) (parts : List String) : String :=
  parts.foldl join top

@[simp] theorem Path.walk_nil (top : String) : walk top [] = top := rfl

@[simp] theorem Path.walk_concat (top : String) (parts : List String) (name : String) :
    walk top (parts ++ [name]) = join (walk top parts) name := by
  rw [walk, List.foldl_concat, walk]

/-- The entries of the folder at some names, each with the names that lead to it. -/
def FileTree.itemsIn (parts : List String) (entries : List (String × FileTree)) :
    List (List String × FileTree) :=
  entries.map fun entry => (parts ++ [entry.1], entry.2)

/-- A folder that a scan keeps, and how deep it lies. -/
structure Visit extends Finding where
  depth : Nat

namespace Visit

/-- The directory as its node has it. -/
def path (scanner : Scanner) (top : String) (v : Visit) : String :=
  scanner.relative (Path.walk top v.parts)

/-- The node of the folder. -/
def node (scanner : Scanner) (top : String) (v : Visit) : Node :=
  Scanner.nodeOf v.id ((Path.fileName? (Path.walk top v.parts)).getD (v.path scanner top))
    v.parentId v.depth v.settled (v.uploads.map Upload.reference)

/-- The dependencies that the configuration file of the folder states. -/
def references (scanner : Scanner) (top : String) (v : Visit) : List DependencyReference :=
  ((v.settled.config.map (·.dependencies)).getD []).map fun (name, configPath) =>
    ⟨v.id, v.path scanner top, configPath, name⟩

/-- The node with its directory, and with what is wrong with its configuration file. -/
def scannedNode (scanner : Scanner) (top : String) (v : Visit) : ScannedNode :=
  ⟨v.node scanner top, v.path scanner top, v.settled.fault⟩

/-- What the folder itself yields. -/
def yields (scanner : Scanner) (top : String) (v : Visit) : Scanned :=
  ⟨⟨[v.scannedNode scanner top], v.references scanner top⟩, v.uploads,
    Scanner.refusedUploads v.depth v.uploads⟩

section Yields

variable (scanner : Scanner) (top : String) (found : List Visit)

theorem nodes_join_yields :
    (Scanned.join (found.map (yields scanner top))).output.nodes =
      found.map (scannedNode scanner top) := by
  rw [Scanned.nodes_join, List.flatMap_map]
  exact List.map_eq_flatMap.symm

theorem dependencies_join_yields :
    (Scanned.join (found.map (yields scanner top))).output.dependencies =
      found.flatMap (references scanner top) := by
  rw [Scanned.dependencies_join, List.flatMap_map]
  rfl

theorem uploads_join_yields :
    (Scanned.join (found.map (yields scanner top))).uploads =
      found.flatMap fun v => v.uploads := by
  rw [Scanned.uploads_join, List.flatMap_map]
  rfl

theorem faults_join_yields :
    (Scanned.join (found.map (yields scanner top))).faults =
      found.flatMap fun v => Scanner.refusedUploads v.depth v.uploads := by
  rw [Scanned.faults_join, List.flatMap_map]
  rfl

end Yields

end Visit

/-- Without plain files a directory is a folder. -/
theorem Classification.ofEntries_eq_folder {entries : List (String × FileTree)}
    (h : FileTree.plainFiles entries = []) : ofEntries entries = .folder := by
  rw [ofEntries, h]
  rfl

namespace Scanned

theorem worst?_eq_none_iff {faults : List (Nat × GraphError)} :
    worst? faults = none ↔ faults = [] := by
  refine ⟨fun h => ?_, fun h => by rw [h]; rfl⟩
  cases hleast : (faults.map (·.1)).min? with
  | none => exact List.map_eq_nil_iff.1 (List.min?_eq_none_iff.1 hleast)
  | some least =>
      simp only [worst?, hleast, Option.map_eq_none_iff, List.find?_eq_none,
        decide_eq_true_eq] at h
      obtain ⟨fault, hfault, hdepth⟩ := List.mem_map.1 (List.min?_mem hleast)
      exact absurd hdepth (h fault hfault)

theorem result_eq_ok_iff {s : Scanned} {output : ScanOutput} {uploads : List Upload} :
    s.result = .ok (output, uploads) ↔ s.faults = [] ∧ s.output = output ∧ s.uploads = uploads := by
  rw [← worst?_eq_none_iff, result]
  cases worst? s.faults with
  | none => simp
  | some error => simp

end Scanned

namespace Scanner

/-- A walk over the trees at some names keeps a list of folders, and takes their ids into use. -/
inductive Visits (scanner : Scanner) (top : String) : (depth : Nat) → (parentId : Option String) →
    NodeIds → List (List String × FileTree) → List Visit → NodeIds → Prop
  | done {depth : Nat} {parentId : Option String} {ids : NodeIds} :
    Visits scanner top depth parentId ids [] [] ids
  /-- Files and links aren't looked at. -/
  | pass {depth : Nat} {parentId : Option String} {ids ids' : NodeIds} {parts : List String}
    {t : FileTree} {rest : List (List String × FileTree)} {found : List Visit}
    (hfolder : t.isFolder = false) (hrest : Visits scanner top depth parentId ids rest found ids') :
    Visits scanner top depth parentId ids ((parts, t) :: rest) found ids'
  /-- A folder in which nothing is found gives its id back. -/
  | prune {depth : Nat} {parentId : Option String} {ids claimed left ids' : NodeIds} {id : String}
    {parts : List String} {entries : List (String × FileTree)}
    {rest : List (List String × FileTree)} {found : List Visit}
    (hclaim : ids.claim scanner.draw (scanner.relative (Path.walk top parts)) = (id, claimed))
    (hfiles : FileTree.plainFiles entries = [])
    (hbelow : Visits scanner top (depth + 1) (some id) claimed (FileTree.itemsIn parts entries) []
      left)
    (hrest : Visits scanner top depth parentId (left.release id) rest found ids') :
    Visits scanner top depth parentId ids ((parts, .folder entries) :: rest) found ids'
  /-- Any other folder is kept. -/
  | keep {depth : Nat} {parentId : Option String} {ids claimed left ids' : NodeIds} {id : String}
    {parts : List String} {entries : List (String × FileTree)} {settled : Settled}
    {rest : List (List String × FileTree)} {below found : List Visit}
    (hclaim : ids.claim scanner.draw (scanner.relative (Path.walk top parts)) = (id, claimed))
    (hsettle : settleFolder (.ofEntries entries) (Path.walk top parts)
      (FileTree.plainFiles entries) = .ok settled)
    (hroot : depth = 0 → Classification.ofEntries entries ≠ .folder)
    (hused : FileTree.plainFiles entries ≠ [] ∨ below ≠ [])
    (hbelow : Visits scanner top (depth + 1) (some id) claimed (FileTree.itemsIn parts entries)
      below left)
    (hrest : Visits scanner top depth parentId left rest found ids') :
    Visits scanner top depth parentId ids ((parts, .folder entries) :: rest)
      (⟨⟨parts, entries, id, parentId, settled⟩, depth⟩ :: (below ++ found)) ids'

section Visits

variable {scanner : Scanner} {top : String} {depth : Nat} {parentId : Option String}
  {ids ids' ids'' : NodeIds} {items items' : List (List String × FileTree)}
  {found found' : List Visit}

theorem Visits.append (h : Visits scanner top depth parentId ids items found ids')
    (h' : Visits scanner top depth parentId ids' items' found' ids'') :
    Visits scanner top depth parentId ids (items ++ items') (found ++ found') ids'' := by
  induction h with
  | done => exact h'
  | pass hfolder _ ih => exact .pass hfolder (ih h')
  | prune hclaim hfiles hbelow _ _ ih => exact .prune hclaim hfiles hbelow (ih h')
  | keep hclaim hsettle hroot hused hbelow _ _ ih =>
      rw [List.cons_append, List.cons_append, List.append_assoc]
      exact .keep hclaim hsettle hroot hused hbelow (ih h')

/-! ### Every scan without faults -/

theorem faults_append_eq_nil {a b : Scanned} :
    (a ++ b).faults = [] ↔ a.faults = [] ∧ b.faults = [] :=
  List.append_eq_nil_iff

theorem join_yields_eq_nil
    (h : (Scanned.join (found.map (Visit.yields scanner top))).output.nodes = []) : found = [] := by
  rwa [Visit.nodes_join_yields, List.map_eq_nil_iff] at h

/-- The scan of a tree is a walk over it, if it doesn't note any faults. -/
def IsWalk (scanner : Scanner) (top : String) (t : FileTree) : Prop :=
  ∀ (parts : List String) (depth : Nat) (parentId : Option String) (ids : NodeIds),
    (scanFolder scanner (Path.walk top parts) depth parentId ids t).1.faults = [] →
    ∃ found, Visits scanner top depth parentId ids [(parts, t)] found
        (scanFolder scanner (Path.walk top parts) depth parentId ids t).2 ∧
      (scanFolder scanner (Path.walk top parts) depth parentId ids t).1 =
        Scanned.join (found.map (Visit.yields scanner top))

theorem exists_visits_of_forall {entries : List (String × FileTree)} {parts : List String}
    (hall : ∀ entry ∈ entries, IsWalk scanner top entry.2)
    (h : (scanSubfolders scanner (Path.walk top parts) depth parentId ids entries).1.faults = []) :
    ∃ found, Visits scanner top depth parentId ids (FileTree.itemsIn parts entries) found
        (scanSubfolders scanner (Path.walk top parts) depth parentId ids entries).2 ∧
      (scanSubfolders scanner (Path.walk top parts) depth parentId ids entries).1 =
        Scanned.join (found.map (Visit.yields scanner top)) := by
  induction entries generalizing ids with
  | nil => exact ⟨[], by simpa [FileTree.itemsIn, scanSubfolders] using Visits.done,
      by simp [scanSubfolders, Scanned.join]⟩
  | cons entry rest ih =>
      obtain ⟨name, t⟩ := entry
      rw [List.forall_mem_cons] at hall
      rw [scanSubfolders, ← Path.walk_concat] at h ⊢
      obtain ⟨hfirst, hrest⟩ := faults_append_eq_nil.1 h
      obtain ⟨found, hvisits, hyields⟩ := hall.1 (parts ++ [name]) depth parentId ids hfirst
      obtain ⟨found', hvisits', hyields'⟩ := ih hall.2 hrest
      refine ⟨found ++ found', hvisits.append hvisits', ?_⟩
      rw [List.map_append, Scanned.join_append, ← hyields, ← hyields']

/-- Where nothing is wrong with a folder and with those in it, it is passed over with all of them,
or it is kept. -/
theorem scanFolder_cases {path : String} {entries : List (String × FileTree)} {id : String}
    {claimed : NodeIds} (hclaim : ids.claim scanner.draw (scanner.relative path) = (id, claimed))
    (h : (scanFolder scanner path depth parentId ids (.folder entries)).1.faults = []) :
    ∃ settled below left,
      settleFolder (.ofEntries entries) path (FileTree.plainFiles entries) = .ok settled ∧
      (depth = 0 → Classification.ofEntries entries ≠ .folder) ∧
      scanSubfolders scanner path (depth + 1) (some id) claimed entries = (below, left) ∧
      below.faults = [] ∧
      ((FileTree.plainFiles entries = [] ∧ below.output.nodes = [] ∧
          scanFolder scanner path depth parentId ids (.folder entries) =
            (.empty, left.release id)) ∨
        ((FileTree.plainFiles entries ≠ [] ∨ below.output.nodes ≠ []) ∧
          scanFolder scanner path depth parentId ids (.folder entries) =
            (ownOutput id (scanner.relative path)
              ((Path.fileName? path).getD (scanner.relative path)) parentId depth settled
              (uploadsOf id (.ofEntries entries) (FileTree.plainFiles entries)) ++ below,
              left))) := by
  have hclass : Classification.ofFiles ((FileTree.plainFiles entries).map (·.1)) =
      .ofEntries entries := rfl
  rw [scanFolder] at h ⊢
  simp only [hclass, hclaim] at h ⊢
  by_cases hroot : Classification.ofEntries entries = .folder ∧ depth = 0
  · rw [if_pos hroot] at h
    cases h
  rw [if_neg hroot] at h ⊢
  cases hsettle : settleFolder (.ofEntries entries) path (FileTree.plainFiles entries) with
  | error e =>
      rw [hsettle] at h
      cases h
  | ok settled =>
      rw [hsettle] at h
      simp only at h ⊢
      cases hbelow : scanSubfolders scanner path (depth + 1) (some id) claimed entries with
      | mk below left =>
          simp only [hbelow] at h ⊢
          refine ⟨settled, below, left, rfl, fun hdepth hfolder => hroot ⟨hfolder, hdepth⟩, rfl, ?_⟩
          by_cases hprune : Classification.ofEntries entries = .folder ∧
              (FileTree.plainFiles entries).isEmpty ∧ below.output.nodes.isEmpty ∧
                below.faults.isEmpty
          · rw [if_pos hprune]
            simp only [List.isEmpty_iff] at hprune
            exact ⟨hprune.2.2.2, .inl ⟨hprune.2.1, hprune.2.2.1, rfl⟩⟩
          · rw [if_neg hprune] at h ⊢
            have hfaults := (faults_append_eq_nil.1 h).2
            refine ⟨hfaults, .inr ⟨?_, rfl⟩⟩
            by_contra hnone
            rw [not_or, not_not, not_not] at hnone
            refine hprune ⟨Classification.ofEntries_eq_folder hnone.1, ?_⟩
            simp only [List.isEmpty_iff]
            exact ⟨hnone.1, hnone.2, hfaults⟩

theorem isWalk (scanner : Scanner) (top : String) (t : FileTree) : IsWalk scanner top t := by
  induction t using FileTree.inductionOn with
  | file contents =>
      intro parts depth parentId ids _
      rw [scanFolder]
      exact ⟨[], .pass rfl .done, rfl⟩
  | link target =>
      intro parts depth parentId ids _
      rw [scanFolder]
      exact ⟨[], .pass rfl .done, rfl⟩
  | folder entries ih =>
      intro parts depth parentId ids h
      cases hclaim : ids.claim scanner.draw (scanner.relative (Path.walk top parts)) with
      | mk id claimed =>
          obtain ⟨settled, below, left, hsettle, hroot, hbelow, hfaults, hcases⟩ :=
            scanFolder_cases hclaim h
          obtain ⟨found, hvisits, hyields⟩ := @exists_visits_of_forall scanner top (depth + 1)
            (some id) claimed entries parts ih (by rw [hbelow]; exact hfaults)
          rw [hbelow] at hvisits hyields
          simp only at hvisits hyields
          subst hyields
          rcases hcases with ⟨hfiles, hnodes, hscan⟩ | ⟨hused, hscan⟩
          · obtain rfl := join_yields_eq_nil hnodes
            rw [hscan]
            exact ⟨[], .prune hclaim hfiles hvisits .done, rfl⟩
          · rw [hscan]
            refine ⟨_, .keep hclaim hsettle hroot (hused.imp_right ?_) hvisits .done, ?_⟩
            · rintro hnodes rfl
              exact hnodes rfl
            · rw [List.append_nil, List.map_cons, Scanned.join]
              rfl

theorem exists_visits_scanFolder {path : String} {t : FileTree}
    (h : (scanFolder scanner path depth parentId ids t).1.faults = []) :
    ∃ found, Visits scanner path depth parentId ids [([], t)] found
        (scanFolder scanner path depth parentId ids t).2 ∧
      (scanFolder scanner path depth parentId ids t).1 =
        Scanned.join (found.map (Visit.yields scanner path)) :=
  isWalk scanner path t [] depth parentId ids h

theorem exists_visits_scanSubfolders {path : String} {entries : List (String × FileTree)}
    (h : (scanSubfolders scanner path depth parentId ids entries).1.faults = []) :
    ∃ found, Visits scanner path depth parentId ids (FileTree.itemsIn [] entries) found
        (scanSubfolders scanner path depth parentId ids entries).2 ∧
      (scanSubfolders scanner path depth parentId ids entries).1 =
        Scanned.join (found.map (Visit.yields scanner path)) :=
  exists_visits_of_forall (fun entry _ => isWalk scanner path entry.2) h

/-! ### Ids -/

/-- The ids that are taken into use are those of the folders that are kept. -/
theorem Visits.used_eq (h : Visits scanner top depth parentId ids items found ids') :
    ids'.used = (found.map (·.id)).reverse ++ ids.used := by
  induction h with
  | done => rfl
  | pass _ _ ih => exact ih
  | prune hclaim _ _ _ ihbelow ihrest =>
      rw [ihrest, NodeIds.release, ihbelow, (NodeIds.claim_new hclaim).2]
      simp
  | keep hclaim _ _ _ _ _ ihbelow ihrest =>
      rw [ihrest, ihbelow, (NodeIds.claim_new hclaim).2]
      simp

/-- What holds of the ids in use stays true, if it does when one is claimed and when one is given
back. -/
theorem Visits.used_invariant {P : List String → Prop}
    (hclaim : ∀ (ids : NodeIds) (path : String), P ids.used →
      P ((ids.claim scanner.draw path).1 :: ids.used))
    (herase : ∀ used id, P used → P (used.erase id))
    (h : Visits scanner top depth parentId ids items found ids') (hids : P ids.used) :
    P ids'.used := by
  have hclaimed : ∀ {ids claimed : NodeIds} {id path : String},
      ids.claim scanner.draw path = (id, claimed) → P ids.used → P claimed.used := by
    intro ids claimed id path heq hP
    have hown := hclaim ids path hP
    rwa [heq, ← (NodeIds.claim_new heq).2] at hown
  induction h with
  | done => exact hids
  | pass _ _ ih => exact ih hids
  | prune heq _ _ _ ihbelow ihrest => exact ihrest (herase _ _ (ihbelow (hclaimed heq hids)))
  | keep heq _ _ _ _ _ ihbelow ihrest => exact ihrest (ihbelow (hclaimed heq hids))

/-- No two folders get the same id, whatever is drawn and whatever is given back. -/
theorem Visits.nodup_ids (h : Visits scanner top depth parentId ids items found ids')
    (hids : ids.used.Nodup) : (found.map (·.id)).Nodup := by
  have hused : ids'.used.Nodup := by
    refine h.used_invariant (fun ids path hnodup => ?_) (fun used id => List.Nodup.erase id) hids
    exact List.nodup_cons.2 ⟨(NodeIds.claim_spec scanner.draw ids path).1, hnodup⟩
  rw [h.used_eq] at hused
  exact List.nodup_reverse.1 (List.nodup_append.1 hused).1

theorem Visits.isHexText (h : Visits scanner top depth parentId .empty items found ids')
    (hdraw : ∀ n, NodeIds.IsHexText (scanner.draw n)) : ∀ v ∈ found, NodeIds.IsHexText v.id := by
  have hused : ∀ id ∈ ids'.used, NodeIds.IsHexText id := by
    refine h.used_invariant (P := fun used => ∀ id ∈ used, NodeIds.IsHexText id)
      (fun ids path hall => List.forall_mem_cons.2 ⟨NodeIds.isHexText_claim hdraw hall path, hall⟩)
      (fun used id hall id' hid' => hall id' (List.mem_of_mem_erase hid')) ?_
    exact fun id hid => absurd hid List.not_mem_nil
  intro v hv
  refine hused v.id ?_
  rw [h.used_eq]
  exact List.mem_append_left _ (List.mem_reverse.2 (List.mem_map.2 ⟨v, hv, rfl⟩))

/-! ### Folders that are kept -/

theorem Visits.settleFolder (h : Visits scanner top depth parentId ids items found ids') :
    ∀ v ∈ found, settleFolder (.ofEntries v.entries) (Path.walk top v.parts)
      (FileTree.plainFiles v.entries) = .ok v.settled := by
  induction h with
  | done => exact fun _ hv => absurd hv List.not_mem_nil
  | pass _ _ ih => exact ih
  | prune _ _ _ _ _ ihrest => exact ihrest
  | keep _ hsettle _ _ _ _ ihbelow ihrest =>
      rw [List.forall_mem_cons, List.forall_mem_append]
      exact ⟨hsettle, ihbelow, ihrest⟩

end Visits

end Scanner

end InfraGraph
