import InfraGraph.Import.Scan
import InfraGraph.Proofs.FileTree.Basic
import InfraGraph.Proofs.Import.NodeIds
import InfraGraph.Proofs.Path

/-!
# What a scan finds

A scan goes through the folders of a tree in their order.  If every folder can be settled and has
something to be kept for, then each of them makes one node, under an id that no other node has, and
the node of the folder above is its parent.
-/

namespace InfraGraph

/-! ### Several yields as one -/

namespace Scanned

/-- What is found in several places, one after the other. -/
def join : List Scanned → Scanned
  | [] => empty
  | first :: rest => first ++ join rest

theorem empty_append (s : Scanned) : empty ++ s = s := rfl

theorem append_empty (s : Scanned) : s ++ empty = s := by
  obtain ⟨⟨nodes, dependencies⟩, uploads, faults⟩ := s
  change append _ _ = _
  simp only [append, empty, List.append_nil, mk.injEq, and_true]
  change ScanOutput.append _ _ = _
  simp [ScanOutput.append, ScanOutput.empty]

theorem append_assoc (a b c : Scanned) : a ++ b ++ c = a ++ (b ++ c) := by
  change append (append a b) c = append a (append b c)
  simp only [append, List.append_assoc, mk.injEq, and_true]
  change ScanOutput.append (ScanOutput.append _ _) _ = ScanOutput.append _ (ScanOutput.append _ _)
  simp [ScanOutput.append]

theorem join_append (a b : List Scanned) : join (a ++ b) = join a ++ join b := by
  induction a with
  | nil => rfl
  | cons first rest ih => rw [List.cons_append, join, join, ih, append_assoc]

/-- What is put together entry by entry can be collected entry by entry. -/
theorem apply_join {α : Type} (f : Scanned → List α) (hempty : f empty = [])
    (happend : ∀ a b : Scanned, f (a ++ b) = f a ++ f b) (yields : List Scanned) :
    f (join yields) = yields.flatMap f := by
  induction yields with
  | nil => exact hempty
  | cons first rest ih => rw [join, happend, ih, List.flatMap_cons]

theorem nodes_join (yields : List Scanned) :
    (join yields).output.nodes = yields.flatMap (·.output.nodes) :=
  apply_join (·.output.nodes) rfl (fun _ _ => rfl) yields

theorem dependencies_join (yields : List Scanned) :
    (join yields).output.dependencies = yields.flatMap (·.output.dependencies) :=
  apply_join (·.output.dependencies) rfl (fun _ _ => rfl) yields

theorem uploads_join (yields : List Scanned) :
    (join yields).uploads = yields.flatMap (·.uploads) :=
  apply_join (·.uploads) rfl (fun _ _ => rfl) yields

theorem faults_join (yields : List Scanned) :
    (join yields).faults = yields.flatMap (·.faults) :=
  apply_join (·.faults) rfl (fun _ _ => rfl) yields

end Scanned

theorem Scanner.refusedUploads_eq_nil_iff {depth : Nat} {uploads : List Upload} :
    refusedUploads depth uploads = [] ↔
      ∀ upload ∈ uploads, Attachment.isValidName upload.name = true := by
  simp [refusedUploads]

/-! ### Found folders -/

/-- What the names of the plain files in a folder make it. -/
def Classification.ofEntries (entries : List (String × FileTree)) : Classification :=
  ofFiles ((FileTree.plainFiles entries).map (·.1))

/-- A folder that makes a node. -/
structure Finding where
  /-- The names that lead to the folder from the root of the scan. -/
  parts : List String
  entries : List (String × FileTree)
  id : String
  parentId : Option String
  settled : Scanner.Settled

namespace Finding

/-- The folder without what the scan adds. -/
def place (f : Finding) : List String × List (String × FileTree) :=
  (f.parts, f.entries)

/-- The files that are attached to the node. -/
def uploads (f : Finding) : List Upload :=
  Scanner.uploadsOf f.id (.ofEntries f.entries) (FileTree.plainFiles f.entries)

/-- What the folder itself yields. -/
def output (f : Finding) : Scanned :=
  Scanner.ownOutput f.id (Path.unsplit f.parts) (f.parts.getLastD "") f.parentId
    (f.parts.length - 1) f.settled f.uploads

/-- The folder is settled in the same way wherever it lies. -/
def IsSettled (f : Finding) : Prop :=
  ∀ path, Scanner.settleFolder (.ofEntries f.entries) path (FileTree.plainFiles f.entries) =
    .ok f.settled

end Finding

/-- A folder that makes a node without failing.  A folder directly in the root of the scan has a
configuration file, any other one has that or a file or another folder. -/
structure IsKept (parts : List String) (entries : List (String × FileTree)) : Prop where
  plain : ∀ name ∈ parts, Path.IsPlain name
  settles : ∃ settled, ∀ path, Scanner.settleFolder (.ofEntries entries) path
    (FileTree.plainFiles entries) = .ok settled
  configured : parts.length = 1 → Classification.ofEntries entries ≠ .folder
  used : Classification.ofEntries entries ≠ .folder ∨ FileTree.plainFiles entries ≠ [] ∨
    FileTree.foldersOf parts entries ≠ []

/-- A scan below the folder at some parts, whose node has the id `parentId`, finds a list of
folders. -/
structure Finds (parts : List String) (parentId : Option String) (ids : NodeIds)
    (folders : List (List String × List (String × FileTree))) (found : List Finding)
    (result : Scanned × NodeIds) : Prop where
  scanned : result.1 = Scanned.join (found.map Finding.output)
  places : found.map Finding.place = folders
  used : result.2.used = (found.map Finding.id).reverse ++ ids.used
  nodup : ids.used.Nodup → result.2.used.Nodup
  settled : ∀ f ∈ found, f.IsSettled
  parent : ∀ f ∈ found, (f.parts.dropLast = parts ∧ f.parentId = parentId) ∨
    ∃ above ∈ found, f.parts.dropLast = above.parts ∧ f.parentId = some above.id

namespace Finds

variable {parts : List String} {parentId : Option String} {ids ids' ids'' : NodeIds}
  {folders folders' : List (List String × List (String × FileTree))} {found found' : List Finding}
  {s s' : Scanned}

theorem nil : Finds parts parentId ids [] [] (.empty, ids) :=
  ⟨rfl, rfl, rfl, fun h => h, by simp, by simp⟩

/-- What is found in one place and then in another one beside it. -/
theorem append (h : Finds parts parentId ids folders found (s, ids'))
    (h' : Finds parts parentId ids' folders' found' (s', ids'')) :
    Finds parts parentId ids (folders ++ folders') (found ++ found') (s ++ s', ids'') := by
  refine ⟨?_, ?_, ?_, fun hnodup => h'.nodup (h.nodup hnodup), ?_, ?_⟩
  · have hs : s = _ := h.scanned
    have hs' : s' = _ := h'.scanned
    rw [List.map_append, Scanned.join_append, ← hs, ← hs']
  · rw [List.map_append, h.places, h'.places]
  · have hused : ids'.used = _ := h.used
    have hused' : ids''.used = _ := h'.used
    simp [hused', hused]
  · intro f hf
    exact (List.mem_append.1 hf).elim (h.settled f) (h'.settled f)
  · intro f hf
    rcases List.mem_append.1 hf with hf | hf
    · rcases h.parent f hf with htop | ⟨above, habove, hparent⟩
      · exact .inl htop
      · exact .inr ⟨above, List.mem_append_left _ habove, hparent⟩
    · rcases h'.parent f hf with htop | ⟨above, habove, hparent⟩
      · exact .inl htop
      · exact .inr ⟨above, List.mem_append_right _ habove, hparent⟩

/-- What is found in a folder, and the folder itself. -/
theorem cons {f : Finding} (hparts : f.parts.dropLast = parts) (hparent : f.parentId = parentId)
    (hsettled : f.IsSettled) (hnew : f.id ∉ ids.used) (hused : ids'.used = f.id :: ids.used)
    (h : Finds f.parts (some f.id) ids' folders found (s, ids'')) :
    Finds parts parentId ids (f.place :: folders) (f :: found) (f.output ++ s, ids'') := by
  refine ⟨?_, ?_, ?_, fun hnodup => h.nodup ?_, ?_, ?_⟩
  · have hs : s = _ := h.scanned
    rw [List.map_cons, Scanned.join, ← hs]
  · rw [List.map_cons, h.places]
  · have hused' : ids''.used = _ := h.used
    simp [hused', hused]
  · rw [hused]
    exact List.nodup_cons.2 ⟨hnew, hnodup⟩
  · intro f' hf'
    rcases List.mem_cons.1 hf' with rfl | hf'
    · exact hsettled
    · exact h.settled f' hf'
  · intro f' hf'
    rcases List.mem_cons.1 hf' with rfl | hf'
    · exact .inl ⟨hparts, hparent⟩
    · right
      rcases h.parent f' hf' with htop | ⟨above, habove, hbelow⟩
      · exact ⟨f, List.mem_cons_self, htop⟩
      · exact ⟨above, List.mem_cons_of_mem _ habove, hbelow⟩

end Finds

/-! ### Scanning folders -/

namespace Scanner

section Scan

variable {scanner : Scanner} {path : String} {parts : List String} {depth : Nat}
  {parentId : Option String} {ids : NodeIds} {entries : List (String × FileTree)}

theorem relative_eq (h : Path.components path = Path.components scanner.root ++ parts) :
    scanner.relative path = Path.unsplit parts := by
  have hstrip : ∀ front : List String, Path.stripFront? front (front ++ parts) = some parts := by
    intro front
    induction front with
    | nil => cases parts <;> rfl
    | cons name front ih => simpa [Path.stripFront?] using ih
  rw [relative, Path.below?, h, hstrip]

theorem scanSubfolders_append (front back : List (String × FileTree)) :
    scanSubfolders scanner path depth parentId ids (front ++ back) =
      let first := scanSubfolders scanner path depth parentId ids front
      let others := scanSubfolders scanner path depth parentId first.2 back
      (first.1 ++ others.1, others.2) := by
  induction front generalizing ids with
  | nil => simp only [List.nil_append, scanSubfolders, Scanned.empty_append]
  | cons entry front ih =>
      obtain ⟨name, t⟩ := entry
      simp only [List.cons_append, scanSubfolders, ih, Scanned.append_assoc]

/-- What the scan of a folder yields, where nothing is wrong with the folder. -/
theorem scanFolder_eq {settled : Settled}
    (hroot : depth = 0 → Classification.ofEntries entries ≠ .folder)
    (hsettle : settleFolder (.ofEntries entries) path (FileTree.plainFiles entries) = .ok settled)
    (hused : Classification.ofEntries entries = .folder → FileTree.plainFiles entries = [] →
      (scanSubfolders scanner path (depth + 1)
        (some (ids.claim scanner.draw (scanner.relative path)).1)
        (ids.claim scanner.draw (scanner.relative path)).2 entries).1.output.nodes ≠ []) :
    scanFolder scanner path depth parentId ids (.folder entries) =
      let claimed := ids.claim scanner.draw (scanner.relative path)
      let below := scanSubfolders scanner path (depth + 1) (some claimed.1) claimed.2 entries
      (ownOutput claimed.1 (scanner.relative path)
        ((Path.fileName? path).getD (scanner.relative path)) parentId depth settled
        (uploadsOf claimed.1 (.ofEntries entries) (FileTree.plainFiles entries)) ++ below.1,
        below.2) := by
  simp only [Classification.ofEntries] at hroot hsettle hused ⊢
  rw [scanFolder]
  simp only
  rw [if_neg (by rintro ⟨hfolder, hdepth⟩; exact hroot hdepth hfolder), hsettle]
  simp only
  rw [if_neg]
  intro ⟨hfolder, hfiles, hnodes, _⟩
  exact hused hfolder (List.isEmpty_iff.1 hfiles) (List.isEmpty_iff.1 hnodes)

/-- All folders of a tree are found, if each of them is kept. -/
def FindsAll (scanner : Scanner) (t : FileTree) : Prop :=
  ∀ path parts name parentId ids,
    Path.components path = Path.components scanner.root ++ (parts ++ [name]) →
    Path.fileName? path = some name →
    (∀ place ∈ FileTree.foldersIn (parts ++ [name]) t, IsKept place.1 place.2) →
    ∃ found, Finds parts parentId ids (FileTree.foldersIn (parts ++ [name]) t) found
      (scanFolder scanner path parts.length parentId ids t)

theorem exists_finds_scanSubfolders (hall : ∀ entry ∈ entries, FindsAll scanner entry.2)
    (hpath : Path.components path = Path.components scanner.root ++ parts)
    (hkept : ∀ place ∈ FileTree.foldersOf parts entries, IsKept place.1 place.2)
    (parentId : Option String) (ids : NodeIds) :
    ∃ found, Finds parts parentId ids (FileTree.foldersOf parts entries) found
      (scanSubfolders scanner path parts.length parentId ids entries) := by
  induction entries generalizing ids with
  | nil => exact ⟨[], by simpa [FileTree.foldersOf, scanSubfolders] using Finds.nil⟩
  | cons entry rest ih =>
      obtain ⟨name, t⟩ := entry
      rw [List.forall_mem_cons] at hall
      rw [FileTree.foldersOf, List.forall_mem_append] at hkept
      rw [FileTree.foldersOf, scanSubfolders]
      have hfirst : ∃ found, Finds parts parentId ids (FileTree.foldersIn (parts ++ [name]) t) found
          (scanFolder scanner (Path.join path name) parts.length parentId ids t) := by
        -- Files and links yield nothing and take no id.
        cases t with
        | file contents =>
            refine ⟨[], ?_⟩
            simpa [FileTree.foldersIn, scanFolder] using Finds.nil
        | link target =>
            refine ⟨[], ?_⟩
            simpa [FileTree.foldersIn, scanFolder] using Finds.nil
        | folder es =>
            have hown := hkept.1 (parts ++ [name], es) (by simp [FileTree.foldersIn])
            have hname : Path.IsPlain name := hown.plain name (by simp)
            refine hall.1 _ parts name parentId ids ?_ (Path.fileName?_join hname) hkept.1
            rw [Path.components_join hname, hpath, List.append_assoc]
      obtain ⟨found, hfound⟩ := hfirst
      obtain ⟨found', hfound'⟩ := ih hall.2 hkept.2
        (scanFolder scanner (Path.join path name) parts.length parentId ids t).2
      exact ⟨found ++ found', hfound.append hfound'⟩

theorem findsAll (scanner : Scanner) (t : FileTree) : FindsAll scanner t := by
  induction t using FileTree.inductionOn with
  | file contents =>
      intro path parts name parentId ids _ _ _
      exact ⟨[], by simpa [FileTree.foldersIn, scanFolder] using Finds.nil⟩
  | link target =>
      intro path parts name parentId ids _ _ _
      exact ⟨[], by simpa [FileTree.foldersIn, scanFolder] using Finds.nil⟩
  | folder entries ih =>
      intro path parts name parentId ids hpath hname hkept
      rw [FileTree.foldersIn, List.forall_mem_cons] at hkept
      obtain ⟨hown, hbelow⟩ := hkept
      obtain ⟨hplain, ⟨settled, hsettled⟩, hconfigured, hused⟩ := hown
      have hclaim := NodeIds.claim_spec scanner.draw ids (scanner.relative path)
      have hdepth : (parts ++ [name]).length = parts.length + 1 := by simp
      -- The ids in use go through the whole scan: below, the id of this folder is one of them.
      obtain ⟨found, hfound⟩ := exists_finds_scanSubfolders ih hpath hbelow
        (some (ids.claim scanner.draw (scanner.relative path)).1)
        (ids.claim scanner.draw (scanner.relative path)).2
      rw [hdepth] at hfound
      let f : Finding := ⟨parts ++ [name], entries,
        (ids.claim scanner.draw (scanner.relative path)).1, parentId, settled⟩
      have hroot : parts.length = 0 → Classification.ofEntries entries ≠ .folder := by
        intro hzero
        apply hconfigured
        rw [hdepth, hzero]
      have hkeep : Classification.ofEntries entries = .folder → FileTree.plainFiles entries = [] →
          (scanSubfolders scanner path (parts.length + 1)
            (some (ids.claim scanner.draw (scanner.relative path)).1)
            (ids.claim scanner.draw (scanner.relative path)).2 entries).1.output.nodes ≠ [] := by
        intro hfolder hfiles hnil
        -- Without files of its own it is kept for the folders in it, and each of them makes a node.
        have hfolders := (hused.resolve_left (not_not.2 hfolder)).resolve_left (not_not.2 hfiles)
        rw [hfound.scanned, Scanned.nodes_join] at hnil
        apply hfolders
        rw [← hfound.places]
        cases found with
        | nil => rfl
        | cons first rest => simp [Finding.output, ownOutput] at hnil
      refine ⟨f :: found, ?_⟩
      rw [FileTree.foldersIn, scanFolder_eq hroot (hsettled path) hkeep]
      have hcons := @Finds.cons parts parentId ids _ _ _ found _ f (by simp [f]) rfl hsettled
        hclaim.1 hclaim.2 hfound
      simpa [f, Finding.output, Finding.uploads, Finding.place, relative_eq hpath, hname]
        using hcons

end Scan

end Scanner

end InfraGraph
