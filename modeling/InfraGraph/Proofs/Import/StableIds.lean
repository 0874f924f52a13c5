import InfraGraph.Proofs.Import.Schedules

/-!
# Ids that stay

If no two directories to be scanned make the same id, then the ids that scans hold, together with
those that directories they haven't come to would get, are all different.  So a claim finds the id
of its directory unused, whatever other scans have done before, and nothing is drawn at random.  An
id then says nothing about other directories, or about files, and stays when these change.
-/

namespace InfraGraph

/-- The ids that the directories to be scanned would get if no other one were in use. -/
def Call.ownIds (scanner : Scanner) (call : Call) : List String :=
  scanner.ownIds call.top (FileTree.foldersIn call.parts (.folder call.entries))

namespace Run

mutual

/-- The ids that a scan holds, and those that the directories it hasn't come to would get. -/
def wanted (scanner : Scanner) : Run → List String
  | .called call => call.ownIds scanner
  | .claimed call id => id :: scanner.ownIds call.top (FileTree.foldersOf call.parts call.entries)
  | .waiting _ id _ below => id :: allWanted scanner below
  | .finished scanned => scanned.output.nodes.map (·.node.id)
  | .failed held => held

def allWanted (scanner : Scanner) : List Run → List String
  | [] => []
  | run :: rest => run.wanted scanner ++ allWanted scanner rest

/-- All ids that a scan holds are those of the directories. -/
def HoldsOwn (scanner : Scanner) : Run → Prop
  | .called _ => True
  | .claimed call id => id = NodeIds.ofPath (scanner.relative call.path)
  | .waiting call id _ below =>
    id = NodeIds.ofPath (scanner.relative call.path) ∧ AllHoldOwn scanner below
  | .finished scanned => ∀ n ∈ scanned.output.nodes, n.node.id = NodeIds.ofPath n.path
  | .failed _ => True

def AllHoldOwn (scanner : Scanner) : List Run → Prop
  | [] => True
  | run :: rest => run.HoldsOwn scanner ∧ AllHoldOwn scanner rest

end

end Run

section Own

variable {scanner : Scanner} {used used' : List String} {run run' : Run}

namespace Run

@[simp] theorem allWanted_nil : allWanted scanner [] = [] := by
  rw [allWanted]

@[simp] theorem allWanted_cons (run : Run) (rest : List Run) :
    allWanted scanner (run :: rest) = run.wanted scanner ++ allWanted scanner rest := by
  rw [allWanted]

@[simp] theorem allWanted_append (front back : List Run) :
    allWanted scanner (front ++ back) = allWanted scanner front ++ allWanted scanner back := by
  induction front with
  | nil => simp
  | cons run front ih => simp [ih]

theorem allWanted_finished (found : List Scanned) :
    allWanted scanner (found.map .finished) =
      (Scanned.join found).output.nodes.map (·.node.id) := by
  rw [Scanned.nodes_join]
  induction found with
  | nil => simp
  | cons scanned found ih => simp [ih, wanted]

theorem allHoldOwn_iff {runs : List Run} :
    AllHoldOwn scanner runs ↔ ∀ run ∈ runs, run.HoldsOwn scanner := by
  induction runs with
  | nil => simp [AllHoldOwn]
  | cons run rest ih => rw [AllHoldOwn, ih, List.forall_mem_cons]

/-- The directories below a directory want what the folders in it would get. -/
theorem allWanted_within (top : String) (parts : List String) (depth : Nat)
    (parentId : Option String) (entries : List (String × FileTree)) :
    allWanted scanner ((Call.within top parts depth parentId entries).map .called) =
      scanner.ownIds top (FileTree.foldersOf parts entries) := by
  induction entries with
  | nil => rfl
  | cons entry rest ih =>
      obtain ⟨name, t⟩ := entry
      rw [FileTree.foldersOf, Scanner.ownIds_append, ← ih]
      cases t with
      | folder entries => rw [Call.within, List.map_cons, allWanted_cons, wanted, Call.ownIds]
      | file _ | link _ => rfl

mutual

theorem held_sublist_wanted : (run : Run) → run.held.Sublist (run.wanted scanner)
  | .called call => by
    rw [held]
    exact List.nil_sublist _
  | .claimed call id => by
    rw [held, wanted]
    exact (List.nil_sublist _).cons_cons id
  | .waiting call id settled below => by
    rw [held, wanted]
    exact (allHeld_sublist_allWanted below).cons_cons id
  | .finished scanned => by
    rw [held, wanted]
  | .failed ids => by
    rw [held, wanted]

theorem allHeld_sublist_allWanted : (runs : List Run) →
    (allHeld runs).Sublist (allWanted scanner runs)
  | [] => by rw [allHeld_nil, allWanted_nil]
  | run :: rest => by
    rw [allHeld_cons, allWanted_cons]
    exact (held_sublist_wanted run).append (allHeld_sublist_allWanted rest)

end

theorem nodup_wanted {front back : List Run}
    (hdiffer : (allWanted scanner (front ++ run :: back)).Nodup) : (run.wanted scanner).Nodup := by
  rw [allWanted_append, allWanted_cons] at hdiffer
  exact (List.nodup_append.1 (List.nodup_append.1 hdiffer).2.1).1

theorem allWanted_sublist (h : (run'.wanted scanner).Sublist (run.wanted scanner))
    (front back : List Run) :
    (allWanted scanner (front ++ run' :: back)).Sublist
      (allWanted scanner (front ++ run :: back)) := by
  simp only [allWanted_append, allWanted_cons]
  exact (List.Sublist.refl _).append (h.append (List.Sublist.refl _))

/-- Where different ids are wanted, no other scan holds an id that a scan wants. -/
theorem mem_held_of_mem_wanted {front back : List Run}
    (hdiffer : (allWanted scanner (front ++ run :: back)).Nodup) {id : String}
    (hwanted : id ∈ run.wanted scanner) (hheld : id ∈ allHeld (front ++ run :: back)) :
    id ∈ run.held := by
  rw [allWanted_append, allWanted_cons] at hdiffer
  rw [allHeld_append, allHeld_cons, List.mem_append, List.mem_append] at hheld
  have hfront := (List.nodup_append.1 hdiffer).2.2
  have hback := (List.nodup_append.1 (List.nodup_append.1 hdiffer).2.1).2.2
  rcases hheld with hheld | hheld | hheld
  · exact absurd rfl (hfront id ((allHeld_sublist_allWanted front).subset hheld) id
      (List.mem_append_left _ hwanted))
  · exact hheld
  · exact absurd rfl (hback id hwanted id ((allHeld_sublist_allWanted back).subset hheld))

end Run

/-- One step of one scan, of which no other one holds what it wants. -/
theorem Scanner.Step.holdsOwn (h : scanner.Step used run used' run')
    (hdiffer : (run.wanted scanner).Nodup)
    (hfree : ∀ id ∈ run.wanted scanner, id ∈ used → id ∈ run.held)
    (hown : run.HoldsOwn scanner) :
    run'.HoldsOwn scanner ∧ (run'.wanted scanner).Sublist (run.wanted scanner) := by
  induction h with
  | @claim call id _ hid =>
      have hfirst : (Run.called call).wanted scanner =
          NodeIds.ofPath (scanner.relative call.path) ::
            scanner.ownIds call.top (FileTree.foldersOf call.parts call.entries) := by
        rw [Run.wanted, Call.ownIds, FileTree.foldersIn]
        rfl
      rw [hfirst] at hfree ⊢
      obtain rfl : id = _ := hid.eq_of_not_mem fun hmem => by
        simpa [Run.held] using hfree _ List.mem_cons_self hmem
      rw [Run.HoldsOwn, Run.wanted]
      exact ⟨rfl, List.Sublist.refl _⟩
  | settle _ =>
      rw [Run.HoldsOwn] at hown
      rw [Run.HoldsOwn, Run.wanted, Run.wanted, Call.below, Run.allWanted_within,
        Run.allHoldOwn_iff, List.forall_mem_map]
      refine ⟨⟨hown, fun call _ => ?_⟩, List.Sublist.refl _⟩
      rw [Run.HoldsOwn]
      trivial
  | @inner used' call id settled front back run run' _ ih =>
      simp only [Run.HoldsOwn, Run.allHoldOwn_iff, List.forall_mem_append,
        List.forall_mem_cons] at hown ⊢
      obtain ⟨hid, hfront, hrun, hback⟩ := hown
      rw [Run.wanted, List.nodup_cons] at hdiffer
      have hwithin : run.wanted scanner ⊆ Run.allWanted scanner (front ++ run :: back) := by
        rw [Run.allWanted_append, Run.allWanted_cons]
        exact fun id hmem => List.mem_append_right _ (List.mem_append_left _ hmem)
      have hfree' : ∀ other ∈ run.wanted scanner, other ∈ used → other ∈ run.held := by
        intro other hother hused
        have hheld := hfree other (by rw [Run.wanted]; exact .tail _ (hwithin hother)) hused
        rw [Run.held, List.mem_cons] at hheld
        refine Run.mem_held_of_mem_wanted hdiffer.2 hother (hheld.resolve_left ?_)
        rintro rfl
        exact hdiffer.1 (hwithin hother)
      obtain ⟨hrun', hsublist⟩ := ih (Run.nodup_wanted hdiffer.2) hfree' hrun
      rw [Run.wanted, Run.wanted]
      exact ⟨⟨hid, hfront, hrun', hback⟩, (Run.allWanted_sublist hsublist front back).cons_cons id⟩
  | prune _ _ =>
      rw [Run.HoldsOwn, Run.wanted]
      exact ⟨fun _ hmem => absurd hmem List.not_mem_nil, List.nil_sublist _⟩
  | @keep call id settled found _ _ =>
      obtain ⟨node, fault, hid, hnodes⟩ :=
        call.nodes_yields_append scanner id settled (Scanned.join found)
      simp only [Run.HoldsOwn, Run.allHoldOwn_iff, List.forall_mem_map] at hown
      rw [Run.HoldsOwn, Run.wanted, Run.wanted, Run.allWanted_finished, hnodes, List.map_cons, hid,
        List.forall_mem_cons, Scanned.nodes_join, List.forall_mem_flatMap]
      exact ⟨⟨hid.trans hown.1, hown.2⟩, List.Sublist.refl _⟩
  | fail _ =>
      rw [Run.HoldsOwn, Run.wanted]
      exact ⟨trivial, Run.held_sublist_wanted _⟩

/-- One step of one of some scans. -/
theorem Scans.Step.holdsOwn {s t : Scans} (h : Step scanner s t)
    (hmatches : Matches s.used (Run.allHeld s.runs))
    (hdiffer : (Run.allWanted scanner s.runs).Nodup) (hown : Run.AllHoldOwn scanner s.runs) :
    Run.AllHoldOwn scanner t.runs ∧
      (Run.allWanted scanner t.runs).Sublist (Run.allWanted scanner s.runs) := by
  obtain ⟨hstep⟩ := h
  rename_i used used' front back run run'
  simp only [Run.allHoldOwn_iff, List.forall_mem_append, List.forall_mem_cons] at hown ⊢
  obtain ⟨hrun', hsublist⟩ := hstep.holdsOwn (Run.nodup_wanted hdiffer)
    (fun id hwanted hused =>
      Run.mem_held_of_mem_wanted hdiffer hwanted (hmatches.perm.subset hused)) hown.2.1
  exact ⟨⟨hown.1, hrun', hown.2.2⟩, Run.allWanted_sublist hsublist front back⟩

/-- Any number of steps of any scans. -/
theorem Scans.Reaches.holdsOwn {calls : List Call} {s : Scans}
    (h : Reaches scanner (start calls) s)
    (hdiffer : (Run.allWanted scanner (calls.map .called)).Nodup) :
    Run.AllHoldOwn scanner s.runs ∧ (Run.allWanted scanner s.runs).Nodup := by
  induction h with
  | refl =>
      refine ⟨Run.allHoldOwn_iff.2 (List.forall_mem_map.2 fun call _ => ?_), hdiffer⟩
      rw [Run.HoldsOwn]
      trivial
  | tail hfront hstep ih =>
      obtain ⟨hown, hsublist⟩ := hstep.holdsOwn (Reaches.matches hfront) ih.2 ih.1
      exact ⟨hown, ih.2.sublist hsublist⟩

/-- Every node has the id of its directory. -/
theorem Scans.Reaches.id_eq_ofPath {calls : List Call} {s : Scans}
    (h : Reaches scanner (start calls) s)
    (hdiffer : (Run.allWanted scanner (calls.map .called)).Nodup) :
    ∀ n ∈ s.nodes, n.node.id = NodeIds.ofPath n.path := by
  intro n hn
  obtain ⟨run, hrun, hn⟩ := List.mem_flatMap.1 hn
  have hown := Run.allHoldOwn_iff.1 (h.holdsOwn hdiffer).1 run hrun
  cases run with
  | finished scanned =>
      rw [Run.HoldsOwn] at hown
      exact hown n hn
  | called _ | claimed _ _ | waiting _ _ _ _ | failed _ => exact absurd hn List.not_mem_nil

end Own

/-! ### Trees -/

/-- No two directories in a folder have the same digest. -/
def FileTree.DigestsDiffer (entries : List (String × FileTree)) : Prop :=
  ∀ parts parts' es es', parts ≠ [] → parts' ≠ [] →
    (folder entries).find? parts = some (.folder es) →
    (folder entries).find? parts' = some (.folder es') →
    Digest.Md5.hash (Path.unsplit parts).toUTF8 = Digest.Md5.hash (Path.unsplit parts').toUTF8 →
    parts = parts'

/-- What ids directories make can be seen by going through all of them. -/
theorem FileTree.digestsDiffer_iff {entries : List (String × FileTree)}
    (hwell : (folder entries).WellFormed) :
    DigestsDiffer entries ↔
      ((foldersOf [] entries).map fun place => NodeIds.ofPath (Path.unsplit place.1)).Nodup := by
  have hnodup := nodup_foldersIn hwell []
  rw [foldersIn, List.map_cons, List.nodup_cons] at hnodup
  have hmem : ∀ {parts es}, parts ≠ [] → (folder entries).find? parts = some (.folder es) →
      (parts, es) ∈ foldersOf [] entries := by
    intro parts es hne hfind
    obtain ⟨name, rest, rfl⟩ := List.exists_cons_of_ne_nil hne
    exact (mem_foldersOf_iff hwell).2 ⟨name, rest, rfl, hfind⟩
  rw [List.nodup_map_iff_inj_on hnodup.2.of_map]
  constructor
  · rintro hdiffer ⟨parts, es⟩ hplace ⟨parts', es'⟩ hplace' hsame
    obtain ⟨name, rest, hparts, hfind⟩ := (mem_foldersOf_iff hwell).1 hplace
    obtain ⟨name', rest', hparts', hfind'⟩ := (mem_foldersOf_iff hwell).1 hplace'
    simp only [List.nil_append] at hparts hparts'
    subst hparts hparts'
    exact List.inj_on_of_nodup_map hnodup.2 hplace hplace' (hdiffer _ _ es es'
      (List.cons_ne_nil _ _) (List.cons_ne_nil _ _) hfind hfind' (Text.hexOfBytes_inj hsame))
  · intro hinj parts parts' es es' hne hne' hfind hfind' hsame
    have hplaces := hinj _ (hmem hne hfind) _ (hmem hne' hfind')
      (congrArg Text.hexOfBytes hsame)
    exact congrArg Prod.fst hplaces

/-- In every schedule for the directories at the top of a tree, nodes have the ids of their
directories. -/
theorem Scans.Reaches.id_eq_ofPath_of_digestsDiffer {scanner : Scanner}
    {entries : List (String × FileTree)} {s : Scans} (hwell : (FileTree.folder entries).WellFormed)
    (hplain : (FileTree.folder entries).FoldersPlain) (hdiffer : FileTree.DigestsDiffer entries)
    (h : Reaches scanner (start (Call.within scanner.root [] 0 none entries)) s) :
    ∀ n ∈ s.nodes, n.node.id = NodeIds.ofPath n.path := by
  refine h.id_eq_ofPath ?_
  rw [Run.allWanted_within, Scanner.ownIds_foldersOf hwell hplain]
  exact (FileTree.digestsDiffer_iff hwell).1 hdiffer

/-- A tree in which no two directories have the same digest was imported. -/
structure ImportsApart (fs : FileSystem) (root : String) (draw : Nat → String)
    (entries : List (String × FileTree)) (found : List ScannedNode) (nodes : List Node) : Prop where
  wellFormed : fs.root.WellFormed
  plain : fs.root.FoldersPlain
  listed : fs.list root = .ok entries
  differ : FileTree.DigestsDiffer entries
  scanned : ∃ dependencies uploads, scanTree fs root draw = .ok (⟨found, dependencies⟩, uploads)
  imported : ∃ (σ : Type) (_ : AttachmentStore σ) (options : LayoutOptions Float) (store kept : σ)
    (imported : ImportedGraph), importTree fs root options draw store = (.ok imported, kept) ∧
      imported.graph.nodes = nodes

namespace ImportsApart

variable {fs : FileSystem} {root : String} {draw : Nat → String}
  {entries : List (String × FileTree)} {found : List ScannedNode} {nodes : List Node}

/-- The scan is one of the schedules. -/
theorem exists_reaches (h : ImportsApart fs root draw entries found nodes) :
    ∃ s, Scans.Reaches (Scanner.mk root draw) (.start (Call.within root [] 0 none entries)) s ∧
      s.nodes = found := by
  obtain ⟨dependencies, uploads, hscan⟩ := h.scanned
  obtain ⟨entries', used, yields, hlist, hreaches, hnodes⟩ := exists_reaches_of_scanTree hscan
  obtain rfl := Except.ok.inj (h.listed.symm.trans hlist)
  exact ⟨_, hreaches, hnodes⟩

theorem id_eq_ofPath (h : ImportsApart fs root draw entries found nodes) :
    ∀ n ∈ found, n.node.id = NodeIds.ofPath n.path := by
  obtain ⟨s, hreaches, rfl⟩ := h.exists_reaches
  obtain ⟨hwell, hplain⟩ := wellFormed_and_plain_of_list h.wellFormed h.plain h.listed
  exact hreaches.id_eq_ofPath_of_digestsDiffer hwell hplain h.differ

theorem forall₂_nodes (h : ImportsApart fs root draw entries found nodes) :
    List.Forall₂ (fun n node => node.id = n.node.id ∧ node.id = NodeIds.ofPath n.path ∧
      n.IsIn entries) found nodes := by
  obtain ⟨dependencies, uploads, hscan⟩ := h.scanned
  obtain ⟨σ, _, options, store, kept, imported, himport, rfl⟩ := h.imported
  obtain ⟨output, uploads', hscan', _, hreconstruct⟩ := exists_scanTree_of_importTree himport
  obtain ⟨rfl, rfl⟩ := Prod.mk.inj (Except.ok.inj (hscan.symm.trans hscan'))
  obtain ⟨entries', visits, hlist, hfound, himport, _⟩ := exists_found_of_scanTree
    (fun _ => wellFormed_and_plain_of_list h.wellFormed h.plain) hscan hreconstruct
  obtain rfl := Except.ok.inj (h.listed.symm.trans hlist)
  have hids := h.id_eq_ofPath
  simp only at hfound
  rw [hfound, List.forall_mem_map] at hids
  rw [hfound, List.forall₂_map_left_iff]
  refine himport.forall₂_mem.imp fun v node hmakes => ?_
  obtain ⟨_, hv, hmakes⟩ := hmakes
  exact ⟨hmakes.id_eq, hmakes.id_eq.trans (hids v hv),
    v.parts, v.entries, (himport.find?_eq hv).1, (himport.find?_eq hv).2, himport.path_eq hv⟩

end ImportsApart

/-- Whatever is drawn at random, and in whatever order scans make their steps, the ids in use are
those that were claimed and not given back, each of them once, and no two nodes have the same id.
Where no two directories of a tree have the same digest, every node that any schedule comes to has
the digest of its directory as its id.  The import of such a tree goes through one of the schedules.
So a node that is found in a directory before and after a change to the tree has the same id. -/
theorem scans_giveStableIds :
    (∀ (scanner : Scanner) (calls : List Call) (s : Scans),
      Scans.Reaches scanner (.start calls) s →
        Matches s.used (Run.allHeld s.runs) ∧ (s.nodes.map (·.node.id)).Nodup) ∧
    (∀ (scanner : Scanner) (entries : List (String × FileTree)) (s : Scans),
      (FileTree.folder entries).WellFormed → (FileTree.folder entries).FoldersPlain →
      FileTree.DigestsDiffer entries →
      Scans.Reaches scanner (.start (Call.within scanner.root [] 0 none entries)) s →
        ∀ n ∈ s.nodes, n.node.id = NodeIds.ofPath n.path) ∧
    (∀ fs root draw entries found nodes, ImportsApart fs root draw entries found nodes →
      (∃ s, Scans.Reaches (Scanner.mk root draw) (.start (Call.within root [] 0 none entries)) s ∧
        s.nodes = found) ∧
      List.Forall₂ (fun n node => node.id = n.node.id ∧ node.id = NodeIds.ofPath n.path ∧
        n.IsIn entries) found nodes) ∧
    ∀ fs fs' root root' draw draw' entries entries' found found' nodes nodes',
      ImportsApart fs root draw entries found nodes →
      ImportsApart fs' root' draw' entries' found' nodes' →
        ∀ n ∈ found, ∀ n' ∈ found', n.path = n'.path → n.node.id = n'.node.id := by
  refine ⟨fun scanner calls s h => ⟨h.matches, h.nodup_ids⟩,
    fun scanner entries s hwell hplain hdiffer h =>
      h.id_eq_ofPath_of_digestsDiffer hwell hplain hdiffer,
    fun fs root draw entries found nodes h => ⟨h.exists_reaches, h.forall₂_nodes⟩, ?_⟩
  intro fs fs' root root' draw draw' entries entries' found found' nodes nodes' h h' n hn n' hn'
    hpath
  rw [h.id_eq_ofPath n hn, h'.id_eq_ofPath n' hn', hpath]

namespace TwoVersions

def before : List (String × FileTree) := [
  ("live", .folder [
    ("account.hcl", .file ByteArray.empty),
    ("east", .folder [("region.hcl", .file ByteArray.empty)])]),
  ("terragrunt.hcl", .file ByteArray.empty)]

/-- A file has changed, one region is gone and another one is new. -/
def after : List (String × FileTree) := [
  ("live", .folder [
    ("account.hcl", .file "locals \x7b name = \"main\" \x7d\n".toUTF8),
    ("west", .folder [("region.hcl", .file ByteArray.empty)])]),
  ("terragrunt.hcl", .file ByteArray.empty)]

def system (entries : List (String × FileTree)) : FileSystem :=
  ⟨.folder entries, []⟩

/-- The labels of the nodes that are imported. -/
def labels (entries : List (String × FileTree)) : List String :=
  match importTree (system entries) "/" .standard (NodeIds.ofSeed "") MemoryStore.empty with
  | (.ok imported, _) => imported.graph.nodes.map (·.label)
  | (.error _, _) => []

theorem labels_before : labels before = ["live", "east"] := by
  decide +kernel

theorem labels_after : labels after = ["live", "west"] := by
  decide +kernel

theorem wellFormed_before : (FileTree.folder before).WellFormed := by
  simp only [before, FileTree.WellFormed, FileTree.AllWellFormed, Entries.Ascending, and_true,
    true_and]
  decide

theorem wellFormed_after : (FileTree.folder after).WellFormed := by
  simp only [after, FileTree.WellFormed, FileTree.AllWellFormed, Entries.Ascending, and_true,
    true_and]
  decide

theorem exists_importsApart {entries : List (String × FileTree)}
    (hwell : (FileTree.folder entries).WellFormed)
    (hplain : ∀ place ∈ FileTree.foldersIn [] (.folder entries), ∀ name ∈ place.1,
      Path.IsPlain name)
    (hnodup : ((FileTree.foldersOf [] entries).map fun place =>
      NodeIds.ofPath (Path.unsplit place.1)).Nodup) (hne : labels entries ≠ []) :
    ∃ found nodes, ImportsApart (system entries) "/" (NodeIds.ofSeed "") entries found nodes ∧
      nodes.map (·.label) = labels entries := by
  rw [labels] at hne ⊢
  split at hne
  · rename_i imported kept himport
    obtain ⟨output, uploads, hscan, _⟩ := exists_scanTree_of_importTree himport
    refine ⟨output.nodes, imported.graph.nodes, ⟨hwell, (FileTree.foldersPlain_iff hwell).2 hplain,
      rfl, (FileTree.digestsDiffer_iff hwell).2 hnodup, ⟨_, _, hscan⟩,
      ⟨_, _, _, _, _, _, himport, rfl⟩⟩, rfl⟩
  · exact absurd rfl hne

theorem exists_importsApart_before : ∃ found nodes,
    ImportsApart (system before) "/" (NodeIds.ofSeed "") before found nodes ∧
      nodes.map (·.label) = ["live", "east"] :=
  labels_before ▸ exists_importsApart wellFormed_before (by decide) (by decide +kernel)
    (labels_before ▸ List.cons_ne_nil _ _)

theorem exists_importsApart_after : ∃ found nodes,
    ImportsApart (system after) "/" (NodeIds.ofSeed "") after found nodes ∧
      nodes.map (·.label) = ["live", "west"] :=
  labels_after ▸ exists_importsApart wellFormed_after (by decide) (by decide +kernel)
    (labels_after ▸ List.cons_ne_nil _ _)

/-- The account keeps its id, and so does everything else that is found in both versions. -/
theorem stableIds_versions : ∃ found found' nodes nodes' s,
    ImportsApart (system before) "/" (NodeIds.ofSeed "") before found nodes ∧
    ImportsApart (system after) "/" (NodeIds.ofSeed "") after found' nodes' ∧
    nodes.map (·.label) = ["live", "east"] ∧ nodes'.map (·.label) = ["live", "west"] ∧
    Scans.Reaches (Scanner.mk "/" (NodeIds.ofSeed "")) (.start (Call.within "/" [] 0 none before))
      s ∧ s.nodes = found ∧ Matches s.used (Run.allHeld s.runs) ∧
      (s.nodes.map (·.node.id)).Nodup ∧ (∀ n ∈ s.nodes, n.node.id = NodeIds.ofPath n.path) ∧
    List.Forall₂ (fun n node => node.id = n.node.id ∧ node.id = NodeIds.ofPath n.path ∧
      n.IsIn before) found nodes ∧
    ∀ n ∈ found, ∀ n' ∈ found', n.path = n'.path → n.node.id = n'.node.id := by
  obtain ⟨found, nodes, h, hlabels⟩ := exists_importsApart_before
  obtain ⟨found', nodes', h', hlabels'⟩ := exists_importsApart_after
  obtain ⟨hany, htree, himport, hboth⟩ := scans_giveStableIds
  obtain ⟨⟨s, hreaches, hnodes⟩, hall⟩ := himport _ _ _ _ _ _ h
  obtain ⟨hmatches, hnodup⟩ := hany _ _ _ hreaches
  exact ⟨found, found', nodes, nodes', s, h, h', hlabels, hlabels', hreaches, hnodes, hmatches,
    hnodup, htree _ _ _ wellFormed_before h.plain h.differ hreaches, hall,
    hboth _ _ _ _ _ _ _ _ _ _ _ _ h h'⟩

end TwoVersions

end InfraGraph
