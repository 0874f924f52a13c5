import InfraGraph.Proofs.Import.Visit

/-!
# Configuration files on their own

The contents of a configuration file say something about one node only.  What a scan finds elsewhere
doesn't depend on them, and neither do the ids that it takes, the folders that it passes over or the
files that it attaches.  A settings file can't even make a scan fail, and nor can any file that
isn't understood.
-/

namespace InfraGraph

/-! ### Trees that differ in one place -/

/-- The trees are the same but for what lies at some names: `a` in one of them, `b` in the other. -/
inductive FileTree.DifferAt (a b : FileTree) : List String → FileTree → FileTree → Prop
  | here : DifferAt a b [] a b
  | inside {name : String} {parts : List String} {t t' : FileTree}
      (front back : List (String × FileTree)) (hbelow : DifferAt a b parts t t') :
    DifferAt a b (name :: parts) (.folder (front ++ (name, t) :: back))
      (.folder (front ++ (name, t') :: back))

namespace FileTree

namespace DifferAt

variable {a b t t' : FileTree} {parts : List String} {es es' : List (String × FileTree)}

theorem symm (h : DifferAt a b parts t t') : DifferAt b a parts t' t := by
  induction h with
  | here => exact .here
  | inside front back _ ih => exact .inside front back ih

/-- Where the trees differ in a folder, they are folders themselves. -/
theorem exists_entries (h : DifferAt (.folder es) (.folder es') parts t t') :
    ∃ entries entries', t = .folder entries ∧ t' = .folder entries' := by
  cases h with
  | here => exact ⟨es, es', rfl, rfl⟩
  | inside front back _ => exact ⟨_, _, rfl, rfl⟩

/-- What lies in a folder further down isn't a file of the folder itself. -/
theorem plainFiles_inside (h : DifferAt (.folder es) (.folder es') parts t t')
    (front back : List (String × FileTree)) (name : String) :
    plainFiles (front ++ (name, t') :: back) = plainFiles (front ++ (name, t) :: back) := by
  obtain ⟨entries, entries', rfl, rfl⟩ := h.exists_entries
  rw [plainFiles_append, plainFiles_append]
  rfl

end DifferAt

end FileTree

/-! ### Outputs that differ in one node -/

/-- The nodes are the same but for what a configuration file says about them. -/
def ScannedNode.SameButConfig (node node' : ScannedNode) : Prop :=
  ∃ type locals inputs fault,
    node' = ⟨{ node.node with type := type, locals := locals, inputs := inputs }, node.path, fault⟩

/-- The outputs have the same nodes in the same order, but for what a configuration file says about
the one at `place`, and the same dependencies but for those of that node. -/
def ScanOutput.DifferAt (place : String) (types : NodeType → NodeType → Prop)
    (output output' : ScanOutput) : Prop :=
  ∃ node node' : ScannedNode, node.path = place ∧ node.SameButConfig node' ∧
    types node.node.type node'.node.type ∧
    (∃ before after, output.nodes = before ++ node :: after ∧
      output'.nodes = before ++ node' :: after) ∧
    ∃ before own own' after, output.dependencies = before ++ own ++ after ∧
      output'.dependencies = before ++ own' ++ after ∧
      ∀ reference ∈ own ++ own', reference.sourceId = node.node.id

/-- What is found is the same but for one node. -/
structure Scanned.DifferAt (place : String) (types : NodeType → NodeType → Prop)
    (s s' : Scanned) : Prop where
  output : s.output.DifferAt place types s'.output
  uploads : s'.uploads = s.uploads
  faults : s'.faults = s.faults

namespace Scanned

variable {place : String} {types : NodeType → NodeType → Prop} {s s' : Scanned}

theorem DifferAt.nodes_ne_nil (h : s.DifferAt place types s') :
    s.output.nodes ≠ [] ∧ s'.output.nodes ≠ [] := by
  obtain ⟨node, node', _, _, _, ⟨before, after, hnodes, hnodes'⟩, _⟩ := h.output
  rw [hnodes, hnodes']
  exact ⟨by simp, by simp⟩

/-- What is found before and behind makes no difference. -/
theorem DifferAt.append (h : s.DifferAt place types s') (front back : Scanned) :
    (front ++ (s ++ back)).DifferAt place types (front ++ (s' ++ back)) := by
  obtain ⟨⟨node, node', hplace, hsame, htypes, ⟨before, after, hnodes, hnodes'⟩, earlier, own, own',
    later, hdependencies, hdependencies', hown⟩, huploads, hfaults⟩ := h
  refine ⟨⟨node, node', hplace, hsame, htypes,
    ⟨front.output.nodes ++ before, after ++ back.output.nodes, ?_, ?_⟩,
    front.output.dependencies ++ earlier, own, own', later ++ back.output.dependencies, ?_, ?_,
    hown⟩, ?_, ?_⟩
  · change front.output.nodes ++ (s.output.nodes ++ back.output.nodes) = _
    rw [hnodes]
    simp
  · change front.output.nodes ++ (s'.output.nodes ++ back.output.nodes) = _
    rw [hnodes']
    simp
  · change front.output.dependencies ++ (s.output.dependencies ++ back.output.dependencies) = _
    rw [hdependencies]
    simp
  · change front.output.dependencies ++ (s'.output.dependencies ++ back.output.dependencies) = _
    rw [hdependencies']
    simp
  · change front.uploads ++ (s'.uploads ++ back.uploads) =
      front.uploads ++ (s.uploads ++ back.uploads)
    rw [huploads]
  · change front.faults ++ (s'.faults ++ back.faults) = front.faults ++ (s.faults ++ back.faults)
    rw [hfaults]

end Scanned

namespace Scanner

/-! ### The folder of the configuration file -/

section Config

variable {es es' : List (String × FileTree)} {name : String} {contents contents' : ByteArray}

theorem exists_split_of_differAt
    (hfile : FileTree.DifferAt (.file contents) (.file contents') [name] (.folder es)
      (.folder es')) :
    ∃ front back, FileTree.plainFiles es = front ++ (name, contents) :: back ∧
      FileTree.plainFiles es' = front ++ (name, contents') :: back := by
  cases hfile with
  | inside front back hbelow =>
      cases hbelow
      exact ⟨FileTree.plainFiles front, FileTree.plainFiles back, FileTree.plainFiles_append _ _,
        FileTree.plainFiles_append _ _⟩

/-- What a folder is depends on the names in it. -/
theorem ofEntries_eq_of_differAt
    (hfile : FileTree.DifferAt (.file contents) (.file contents') [name] (.folder es)
      (.folder es')) : Classification.ofEntries es' = .ofEntries es := by
  obtain ⟨front, back, hfiles, hfiles'⟩ := exists_split_of_differAt hfile
  rw [Classification.ofEntries, Classification.ofEntries, hfiles, hfiles', List.map_append,
    List.map_append, List.map_cons, List.map_cons]

/-- The configuration file itself isn't attached. -/
theorem uploadsOf_eq_of_differAt
    (hfile : FileTree.DifferAt (.file contents) (.file contents') [name] (.folder es)
      (.folder es')) {classification : Classification}
    (hname : classification.fileName? = some name) (id : String) :
    uploadsOf id classification (FileTree.plainFiles es') =
      uploadsOf id classification (FileTree.plainFiles es) := by
  obtain ⟨front, back, hfiles, hfiles'⟩ := exists_split_of_differAt hfile
  simp [uploadsOf, hfiles, hfiles', hname]

variable {scanner : Scanner} {path : String} {depth : Nat} {parentId : Option String}
  {ids : NodeIds}

/-- Beside trees that take the same ids the same is found. -/
theorem exists_scanSubfolders_eq (before after : List (String × FileTree)) (name : String)
    (t : FileTree) : ∃ first others start left, ∀ t',
      (scanFolder scanner (Path.join path name) depth parentId start t').2 =
        (scanFolder scanner (Path.join path name) depth parentId start t).2 →
      scanSubfolders scanner path depth parentId ids (before ++ (name, t') :: after) =
        (first ++ ((scanFolder scanner (Path.join path name) depth parentId start t').1 ++ others),
          left) := by
  rcases hfirst : scanSubfolders scanner path depth parentId ids before with ⟨first, start⟩
  rcases hothers : scanSubfolders scanner path depth parentId
    (scanFolder scanner (Path.join path name) depth parentId start t).2 after with ⟨others, left⟩
  refine ⟨first, others, start, left, fun t' hids => ?_⟩
  rw [scanSubfolders_append, hfirst]
  simp only [scanSubfolders, hids, hothers]

/-- Files are passed over on the way to the folders beside them. -/
theorem scanSubfolders_eq_of_differAt
    (hfile : FileTree.DifferAt (.file contents) (.file contents') [name] (.folder es)
      (.folder es')) :
    scanSubfolders scanner path depth parentId ids es' =
      scanSubfolders scanner path depth parentId ids es := by
  cases hfile with
  | inside front back hbelow =>
      cases hbelow
      simp only [scanSubfolders_append, scanSubfolders, scanFolder]

end Config

/-! ### The way down to the folder -/

section Differ

variable {es es' : List (String × FileTree)} {name : String} {contents contents' : ByteArray}
  {scanner : Scanner} {top : String} {parts front : List String} {t t' : FileTree} {depth : Nat}
  {parentId : Option String} {ids : NodeIds} {settled' : Settled}

/-- The nodes of the folder itself, in two scans that settle it. -/
theorem ownOutput_differAt {types : NodeType → NodeType → Prop} {id place label : String}
    {settled : Settled} {uploads : List Upload} {below : Scanned}
    (htypes : types settled.type settled'.type) :
    (ownOutput id place label parentId depth settled uploads ++ below).DifferAt place types
      (ownOutput id place label parentId depth settled' uploads ++ below) := by
  refine ⟨⟨_, _, rfl, ⟨settled'.type, _, _, settled'.fault, rfl⟩, htypes,
    ⟨[], below.output.nodes, rfl, rfl⟩, [], _, _, below.output.dependencies, rfl, rfl, ?_⟩, rfl,
    rfl⟩
  intro reference hreference
  rcases List.mem_append.1 hreference with hown | hown <;>
    obtain ⟨_, _, rfl⟩ := List.mem_map.1 hown <;> rfl

/-- Nothing is wrong with a folder in a scan that notes no faults. -/
theorem exists_settleFolder_of_differAt
    (hdiffer : FileTree.DifferAt (.folder es) (.folder es') parts t t')
    (hfaults : (scanFolder scanner (Path.walk top front) depth parentId ids t).1.faults = []) :
    ∃ settled, settleFolder (.ofEntries es) (Path.walk top (front ++ parts))
      (FileTree.plainFiles es) = .ok settled := by
  induction hdiffer generalizing front depth parentId ids with
  | here =>
      rcases hclaim : ids.claim scanner.draw (scanner.relative (Path.walk top front)) with
        ⟨id, claimed⟩
      obtain ⟨settled, _, _, hsettle, _⟩ := scanFolder_cases hclaim hfaults
      exact ⟨settled, by rwa [List.append_nil]⟩
  | @inside n parts t t' before after _ ih =>
      rcases hclaim : ids.claim scanner.draw (scanner.relative (Path.walk top front)) with
        ⟨id, claimed⟩
      obtain ⟨_, below, left, _, _, hbelow, hnone, _⟩ := scanFolder_cases hclaim hfaults
      obtain ⟨first, others, start, left', hmiddle⟩ := @exists_scanSubfolders_eq scanner
        (Path.walk top front) (depth + 1) (some id) claimed before after n t
      rw [hmiddle t rfl, ← Path.walk_concat] at hbelow
      obtain ⟨rfl, rfl⟩ := Prod.mk.inj hbelow
      obtain ⟨settled, hsettle⟩ :=
        ih (faults_append_eq_nil.1 (faults_append_eq_nil.1 hnone).2).1
      rw [List.append_assoc] at hsettle
      exact ⟨settled, hsettle⟩

/-- A folder that is settled with another configuration file is scanned as before, but for its own
node. -/
theorem scanFolder_differAt_here {path : String} (types : NodeType → NodeType → Prop)
    (hfile : FileTree.DifferAt (.file contents) (.file contents') [name] (.folder es)
      (.folder es'))
    (hname : (Classification.ofEntries es).fileName? = some name)
    (hsettle' : settleFolder (.ofEntries es) path (FileTree.plainFiles es') = .ok settled')
    (htypes : ∀ settled, settleFolder (.ofEntries es) path (FileTree.plainFiles es) =
      .ok settled → types settled.type settled'.type)
    (hfaults : (scanFolder scanner path depth parentId ids (.folder es)).1.faults = []) :
    (scanFolder scanner path depth parentId ids (.folder es)).1.DifferAt (scanner.relative path)
        types (scanFolder scanner path depth parentId ids (.folder es')).1 ∧
      (scanFolder scanner path depth parentId ids (.folder es')).2 =
        (scanFolder scanner path depth parentId ids (.folder es)).2 := by
  have hclass := ofEntries_eq_of_differAt hfile
  have hconfigured : Classification.ofEntries es ≠ .folder := by
    intro hfolder
    rw [hfolder] at hname
    cases hname
  rcases hclaim : ids.claim scanner.draw (scanner.relative path) with ⟨id, claimed⟩
  obtain ⟨settled, below, left, hsettle, _, hbelow, _, hcases⟩ := scanFolder_cases hclaim hfaults
  rcases hcases with ⟨hfiles, _⟩ | ⟨_, hscan⟩
  · exact absurd (Classification.ofEntries_eq_folder hfiles) hconfigured
  rw [← hclass] at hsettle'
  rw [hscan, scanFolder_eq (fun _ => hclass ▸ hconfigured) hsettle'
    fun hfolder => absurd hfolder (hclass ▸ hconfigured), hclaim]
  simp only [scanSubfolders_eq_of_differAt hfile, hbelow, hclass,
    uploadsOf_eq_of_differAt hfile hname, and_true]
  exact ownOutput_differAt (htypes settled hsettle)

/-- Where the scans of one of its folders differ in one place, those of a folder do so as well. -/
theorem scanFolder_differAt_inside {path place : String} {types : NodeType → NodeType → Prop}
    {before after : List (String × FileTree)} {n : String}
    (hfiles : FileTree.plainFiles (before ++ (n, t') :: after) =
      FileTree.plainFiles (before ++ (n, t) :: after))
    (hinside : ∀ parentId ids,
      (scanFolder scanner (Path.join path n) (depth + 1) parentId ids t).1.faults = [] →
        (scanFolder scanner (Path.join path n) (depth + 1) parentId ids t).1.DifferAt place types
            (scanFolder scanner (Path.join path n) (depth + 1) parentId ids t').1 ∧
          (scanFolder scanner (Path.join path n) (depth + 1) parentId ids t').2 =
            (scanFolder scanner (Path.join path n) (depth + 1) parentId ids t).2)
    (hfaults : (scanFolder scanner path depth parentId ids
      (.folder (before ++ (n, t) :: after))).1.faults = []) :
    (scanFolder scanner path depth parentId ids (.folder (before ++ (n, t) :: after))).1.DifferAt
        place types
        (scanFolder scanner path depth parentId ids (.folder (before ++ (n, t') :: after))).1 ∧
      (scanFolder scanner path depth parentId ids (.folder (before ++ (n, t') :: after))).2 =
        (scanFolder scanner path depth parentId ids (.folder (before ++ (n, t) :: after))).2 := by
  rcases hclaim : ids.claim scanner.draw (scanner.relative path) with ⟨id, claimed⟩
  obtain ⟨settled, below, left, hsettle, hroot, hbelow, hnone, hcases⟩ :=
    scanFolder_cases hclaim hfaults
  obtain ⟨first, others, start, left', hmiddle⟩ := @exists_scanSubfolders_eq scanner path
    (depth + 1) (some id) claimed before after n t
  rw [hmiddle t rfl] at hbelow
  obtain ⟨rfl, rfl⟩ := Prod.mk.inj hbelow
  obtain ⟨hdiffer, hids⟩ := hinside _ _ (faults_append_eq_nil.1 (faults_append_eq_nil.1 hnone).2).1
  have hbelow' := hdiffer.append first others
  -- The folder itself has the same files, and something is found in it in both scans.
  have hsame : Classification.ofEntries (before ++ (n, t') :: after) =
      .ofEntries (before ++ (n, t) :: after) := by
    rw [Classification.ofEntries, Classification.ofEntries, hfiles]
  rcases hcases with ⟨_, hempty, _⟩ | ⟨_, hscan⟩
  · exact absurd hempty hbelow'.nodes_ne_nil.1
  rw [← hfiles, ← hsame] at hsettle
  have hscan' := @scanFolder_eq scanner path depth parentId ids (before ++ (n, t') :: after)
    settled (hsame ▸ hroot) hsettle fun _ _ => by
      rw [hclaim, hmiddle t' hids]
      exact hbelow'.nodes_ne_nil.2
  simp only [hclaim, hmiddle t' hids, hfiles, hsame] at hscan'
  rw [hscan, hscan']
  have hwhole := hbelow'.append (ownOutput id (scanner.relative path)
    ((Path.fileName? path).getD (scanner.relative path)) parentId depth settled
    (uploadsOf id (.ofEntries (before ++ (n, t) :: after))
      (FileTree.plainFiles (before ++ (n, t) :: after)))) .empty
  rw [Scanned.append_empty, Scanned.append_empty] at hwhole
  exact ⟨hwhole, rfl⟩

/-- A scan that notes no faults notes none with another configuration file that can be settled, and
it finds the same but for the node of the file. -/
theorem scanFolder_differAt (types : NodeType → NodeType → Prop)
    (hdiffer : FileTree.DifferAt (.folder es) (.folder es') parts t t')
    (hfile : FileTree.DifferAt (.file contents) (.file contents') [name] (.folder es)
      (.folder es'))
    (hname : (Classification.ofEntries es).fileName? = some name)
    (hsettle' : settleFolder (.ofEntries es) (Path.walk top (front ++ parts))
      (FileTree.plainFiles es') = .ok settled')
    (htypes : ∀ settled, settleFolder (.ofEntries es) (Path.walk top (front ++ parts))
      (FileTree.plainFiles es) = .ok settled → types settled.type settled'.type)
    (hfaults : (scanFolder scanner (Path.walk top front) depth parentId ids t).1.faults = []) :
    (scanFolder scanner (Path.walk top front) depth parentId ids t).1.DifferAt
        (scanner.relative (Path.walk top (front ++ parts))) types
        (scanFolder scanner (Path.walk top front) depth parentId ids t').1 ∧
      (scanFolder scanner (Path.walk top front) depth parentId ids t').2 =
        (scanFolder scanner (Path.walk top front) depth parentId ids t).2 := by
  induction hdiffer generalizing front depth parentId ids with
  | here =>
      rw [List.append_nil] at hsettle' htypes ⊢
      exact scanFolder_differAt_here types hfile hname hsettle' htypes hfaults
  | @inside n parts t t' before after hinside ih =>
      have hparts : front ++ n :: parts = (front ++ [n]) ++ parts := by simp
      rw [hparts] at hsettle' htypes ⊢
      refine scanFolder_differAt_inside (hinside.plainFiles_inside before after n)
        (fun parentId ids hnone => ?_) hfaults
      rw [← Path.walk_concat] at hnone ⊢
      exact ih hsettle' htypes hnone

/-! ### Files that don't make a scan fail -/

/-- A settings file says by its name what its folder is. -/
theorem exists_settleFolder_settings (type : NodeType) (path : String)
    (files : List (String × ByteArray)) :
    ∃ settled, settleFolder (.settings type) path files = .ok settled ∧ settled.type = type := by
  rw [settleFolder]
  simp only [Classification.fileName?, settle]
  split <;> exact ⟨_, rfl, rfl⟩

/-- A file that isn't understood settles a folder as well, unless another one of the same name
settles it. -/
theorem exists_settleFolder_of_fault
    (hfile : FileTree.DifferAt (.file contents) (.file contents') [name] (.folder es)
      (.folder es'))
    {classification : Classification} (hname : classification.fileName? = some name)
    {fault : ConfigFault} (hfault : readConfig contents' = .error fault) {path : String}
    {settled : Settled}
    (hsettle : settleFolder classification path (FileTree.plainFiles es) = .ok settled) :
    ∃ settled', settleFolder classification path (FileTree.plainFiles es') = .ok settled' := by
  obtain ⟨before, after, hfiles, hfiles'⟩ := exists_split_of_differAt hfile
  simp only [settleFolder, hname, hfiles, hfiles', Entries.find?_append, Entries.find?_cons,
    if_true] at hsettle ⊢
  cases hbefore : Entries.find? name before with
  | some other =>
      rw [hbefore] at hsettle
      exact ⟨settled, hsettle⟩
  | none =>
      rw [Option.none_or, Option.getD_some, settle, hfault]
      cases classification <;> exact ⟨_, rfl⟩

end Differ

end Scanner

/-! ### Results -/

namespace Scanned

variable {place : String} {types : NodeType → NodeType → Prop} {s s' : Scanned}

theorem exists_result_eq_ok_iff : (∃ found, s.result = .ok found) ↔ s.faults = [] := by
  constructor
  · rintro ⟨found, hfound⟩
    exact (result_eq_ok_iff.1 hfound).1
  · intro hfaults
    exact ⟨_, result_eq_ok_iff.2 ⟨hfaults, rfl, rfl⟩⟩

/-- What is the same holds of the results. -/
theorem DifferAt.of_result (h : s.DifferAt place types s') {found found' : ScanOutput × List Upload}
    (hfound : s.result = .ok found) (hfound' : s'.result = .ok found') :
    found'.2 = found.2 ∧ found.1.DifferAt place types found'.1 := by
  obtain ⟨_, houtput, huploads⟩ := result_eq_ok_iff.1 hfound
  obtain ⟨_, houtput', huploads'⟩ := result_eq_ok_iff.1 hfound'
  rw [← houtput, ← houtput', ← huploads, ← huploads']
  exact ⟨h.uploads, h.output⟩

end Scanned

section Isolation

variable {scanner : Scanner} {fs fs' : FileSystem} {path name : String} {parts : List String}
  {entries entries' es es' : List (String × FileTree)} {contents contents' : ByteArray}
  {depth : Nat} {parentId : Option String} {ids : NodeIds}

theorem Scanner.scanPath_eq_of_list (hlist : fs.list path = .ok entries) :
    scanner.scanPath fs path depth parentId ids =
      scanner.scanFolder (Path.walk path []) depth parentId ids (.folder entries) := by
  rw [scanPath, hlist, Path.walk_nil]

section Files

-- Two trees that differ in one configuration file.
variable (hlist : fs.list path = .ok entries) (hlist' : fs'.list path = .ok entries')
  (htree : FileTree.DifferAt (.folder es) (.folder es') parts (.folder entries) (.folder entries'))
  (hfile : FileTree.DifferAt (.file contents) (.file contents') [name] (.folder es) (.folder es'))
  (hname : (Classification.ofEntries es).fileName? = some name)

include hlist hlist' htree hfile hname

/-- A scan that succeeds also succeeds with another configuration file that can be settled, and it
finds the same but for one node. -/
theorem Scanner.scanPath_differAt (types : NodeType → NodeType → Prop) {settled' : Settled}
    (hsettle' : settleFolder (.ofEntries es) (Path.walk path parts) (FileTree.plainFiles es') =
      .ok settled')
    (htypes : ∀ settled, settleFolder (.ofEntries es) (Path.walk path parts)
      (FileTree.plainFiles es) = .ok settled → types settled.type settled'.type)
    {found : ScanOutput × List Upload}
    (hfound : (scanner.scanPath fs path depth parentId ids).1.result = .ok found) :
    ∃ found', (scanner.scanPath fs' path depth parentId ids).1.result = .ok found' ∧
      found'.2 = found.2 ∧
      found.1.DifferAt (scanner.relative (Path.walk path parts)) types found'.1 := by
  rw [scanPath_eq_of_list hlist] at hfound
  rw [scanPath_eq_of_list hlist']
  have hfaults := Scanned.exists_result_eq_ok_iff.1 ⟨found, hfound⟩
  obtain ⟨hdiffer, _⟩ := scanFolder_differAt types htree hfile hname hsettle' htypes hfaults
  obtain ⟨found', hfound'⟩ :=
    Scanned.exists_result_eq_ok_iff.2 (hdiffer.faults.trans hfaults)
  exact ⟨found', hfound', hdiffer.of_result hfound hfound'⟩

/-- Whatever is in a settings file, a scan that succeeds also succeeds with another one, and the node
keeps its type. -/
theorem Scanner.exists_scanPath_of_settings {type : NodeType}
    (htype : Classification.ofEntries es = .settings type) {found : ScanOutput × List Upload}
    (hfound : (scanner.scanPath fs path depth parentId ids).1.result = .ok found) :
    ∃ found', (scanner.scanPath fs' path depth parentId ids).1.result = .ok found' ∧
      found'.2 = found.2 ∧
      found.1.DifferAt (scanner.relative (Path.walk path parts)) (fun a b => b = a) found'.1 := by
  have hsettles : ∀ files, ∃ settled, settleFolder (.ofEntries es) (Path.walk path parts) files =
      .ok settled ∧ settled.type = type := by
    rw [htype]
    exact exists_settleFolder_settings type _
  obtain ⟨settled', hsettle', htype'⟩ := hsettles (FileTree.plainFiles es')
  refine scanPath_differAt hlist hlist' htree hfile hname (fun a b => b = a) hsettle'
    (fun settled hsettle => ?_) hfound
  obtain ⟨other, hother, hsettled⟩ := hsettles (FileTree.plainFiles es)
  obtain rfl := Except.ok.inj (hother.symm.trans hsettle)
  rw [htype', hsettled]

/-- Two scans that succeed find the same but for one node, whatever the configuration files are. -/
theorem Scanner.scanPath_differAt_of_results {found found' : ScanOutput × List Upload}
    (hfound : (scanner.scanPath fs path depth parentId ids).1.result = .ok found)
    (hfound' : (scanner.scanPath fs' path depth parentId ids).1.result = .ok found') :
    found'.2 = found.2 ∧
      found.1.DifferAt (scanner.relative (Path.walk path parts)) (fun _ _ => True) found'.1 := by
  have hfaults' := Scanned.exists_result_eq_ok_iff.1 ⟨found', hfound'⟩
  rw [scanPath_eq_of_list hlist'] at hfaults'
  obtain ⟨settled', hsettle'⟩ := exists_settleFolder_of_differAt htree.symm hfaults'
  rw [ofEntries_eq_of_differAt hfile] at hsettle'
  obtain ⟨other, hother, hdiffer⟩ := scanPath_differAt hlist hlist' htree hfile hname
    (fun _ _ => True) hsettle' (fun _ _ => trivial) hfound
  obtain rfl := Except.ok.inj (hother.symm.trans hfound')
  exact hdiffer

/-- A scan that succeeds also succeeds with a file that isn't understood. -/
theorem Scanner.exists_scanPath_of_fault {fault : ConfigFault}
    (hfault : readConfig contents' = .error fault) {found : ScanOutput × List Upload}
    (hfound : (scanner.scanPath fs path depth parentId ids).1.result = .ok found) :
    ∃ found', (scanner.scanPath fs' path depth parentId ids).1.result = .ok found' := by
  have hfaults := Scanned.exists_result_eq_ok_iff.1 ⟨found, hfound⟩
  rw [scanPath_eq_of_list hlist] at hfaults
  obtain ⟨settled, hsettle⟩ := exists_settleFolder_of_differAt htree hfaults
  obtain ⟨settled', hsettle'⟩ := exists_settleFolder_of_fault hfile hname hfault hsettle
  obtain ⟨found', hfound', _⟩ := scanPath_differAt hlist hlist' htree hfile hname
    (fun _ _ => True) hsettle' (fun _ _ => trivial) hfound
  exact ⟨found', hfound'⟩

end Files

/-- What a configuration file says stays with the node of its directory.  Whatever is in a settings
file, the scan succeeds or fails as before, and it finds the same but for the local variables, the
inputs, the dependencies and the marker of that node.  With another `terragrunt.hcl` the type of the
node may be another one as well, and one that isn't understood is never the reason for a failure. -/
theorem scanPath_isolatesConfig (hlist : fs.list path = .ok entries)
    (hlist' : fs'.list path = .ok entries')
    (htree : FileTree.DifferAt (.folder es) (.folder es') parts (.folder entries)
      (.folder entries'))
    (hfile : FileTree.DifferAt (.file contents) (.file contents') [name] (.folder es)
      (.folder es'))
    (hname : (Classification.ofEntries es).fileName? = some name) :
    let result := (scanner.scanPath fs path depth parentId ids).1.result
    let result' := (scanner.scanPath fs' path depth parentId ids).1.result
    let place := scanner.relative (Path.walk path parts)
    (∀ type, Classification.ofEntries es = .settings type →
      ((∃ found, result = .ok found) ↔ ∃ found', result' = .ok found') ∧
        ∀ found found', result = .ok found → result' = .ok found' →
          found'.2 = found.2 ∧ found.1.DifferAt place (fun a b => b = a) found'.1) ∧
      (Classification.ofEntries es = .module →
        (∀ found found', result = .ok found → result' = .ok found' →
          found'.2 = found.2 ∧ found.1.DifferAt place (fun _ _ => True) found'.1) ∧
        ∀ fault, Scanner.readConfig contents' = .error fault → (∃ found, result = .ok found) →
          ∃ found', result' = .ok found') := by
  intro result result' place
  have hclass := Scanner.ofEntries_eq_of_differAt hfile
  have hname' : (Classification.ofEntries es').fileName? = some name := hclass ▸ hname
  refine ⟨fun type htype => ⟨⟨?_, ?_⟩, fun found found' hfound hfound' => ?_⟩, fun _ => ⟨?_, ?_⟩⟩
  · rintro ⟨found, hfound⟩
    obtain ⟨found', hfound', _⟩ :=
      Scanner.exists_scanPath_of_settings hlist hlist' htree hfile hname htype hfound
    exact ⟨found', hfound'⟩
  · rintro ⟨found', hfound'⟩
    obtain ⟨found, hfound, _⟩ := Scanner.exists_scanPath_of_settings hlist' hlist htree.symm
      hfile.symm hname' (hclass.trans htype) hfound'
    exact ⟨found, hfound⟩
  · obtain ⟨other, hother, hdiffer⟩ :=
      Scanner.exists_scanPath_of_settings hlist hlist' htree hfile hname htype hfound
    obtain rfl := Except.ok.inj (hother.symm.trans hfound')
    exact hdiffer
  · intro found found' hfound hfound'
    exact Scanner.scanPath_differAt_of_results hlist hlist' htree hfile hname hfound hfound'
  · rintro fault hfault ⟨found, hfound⟩
    exact Scanner.exists_scanPath_of_fault hlist hlist' htree hfile hname hfault hfound

end Isolation

namespace TwoConfigs

/-- What is in the folder of a module. -/
def moduleEntries (module : ByteArray) : List (String × FileTree) :=
  [("main.tf", .file ByteArray.empty), ("terragrunt.hcl", .file module)]

/-- What is in the folder above it, which has settings. -/
def settingsEntries (settings module : ByteArray) : List (String × FileTree) :=
  [("account.hcl", .file settings), ("network", .folder (moduleEntries module)),
    ("notes.txt", .file ByteArray.empty)]

def tree (settings module : ByteArray) : FileSystem :=
  ⟨.folder [("infra", .folder (settingsEntries settings module))], []⟩

/-- The outcome of a scan of the settings and everything below. -/
def scan (settings module : ByteArray) : Except GraphError (ScanOutput × List Upload) :=
  ((Scanner.mk "/" (NodeIds.ofSeed "")).scanPath (tree settings module) "/infra" 0 none
    .empty).1.result

/-- A file that is no text. -/
def noText : ByteArray := ⟨#[255]⟩

/-- A file that names a module. -/
def source : ByteArray :=
  "terraform \x7b\n  source = \"tg-modules//vpc\"\n\x7d\n".toUTF8

theorem list_tree (settings module : ByteArray) :
    (tree settings module).list "/infra" = .ok (settingsEntries settings module) := by
  rfl

theorem exists_scan : ∃ found, scan ByteArray.empty source = .ok found := by
  have hok : (scan ByteArray.empty source).isOk = true := by
    decide +kernel
  exact exists_ok_of_isOk hok

theorem exists_fault : ∃ fault, Scanner.readConfig noText = .error fault := by
  have hok : (Scanner.readConfig noText).isOk = false := by
    decide +kernel
  cases hread : Scanner.readConfig noText with
  | error fault => exact ⟨fault, rfl⟩
  | ok config =>
      rw [hread] at hok
      cases hok

/-- Settings that are no text leave the rest as it was, and so does such a file of the module. -/
theorem isolates_noText :
    (∃ found found', scan ByteArray.empty source = .ok found ∧ scan noText source = .ok found' ∧
        found'.2 = found.2 ∧ found.1.DifferAt "infra" (fun a b => b = a) found'.1) ∧
      ∃ found found', scan ByteArray.empty source = .ok found ∧
        scan ByteArray.empty noText = .ok found' ∧
        found'.2 = found.2 ∧ found.1.DifferAt "infra/network" (fun _ _ => True) found'.1 := by
  obtain ⟨found, hfound⟩ := exists_scan
  constructor
  · have hfile : FileTree.DifferAt (.file ByteArray.empty) (.file noText) ["account.hcl"]
        (.folder (settingsEntries ByteArray.empty source))
        (.folder (settingsEntries noText source)) := .inside [] _ .here
    have hplace : (Scanner.mk "/" (NodeIds.ofSeed "")).relative (Path.walk "/infra" []) =
        "infra" := by
      decide +kernel
    obtain ⟨hiff, hdiffer⟩ := (scanPath_isolatesConfig (list_tree ByteArray.empty source)
      (list_tree noText source) .here hfile rfl).1 .account rfl
    obtain ⟨found', hfound'⟩ := hiff.1 ⟨found, hfound⟩
    rw [hplace] at hdiffer
    exact ⟨found, found', hfound, hfound', hdiffer found found' hfound hfound'⟩
  · have hfile : FileTree.DifferAt (.file source) (.file noText) ["terragrunt.hcl"]
        (.folder (moduleEntries source)) (.folder (moduleEntries noText)) := .inside [_] [] .here
    have htree : FileTree.DifferAt (.folder (moduleEntries source))
        (.folder (moduleEntries noText)) ["network"]
        (.folder (settingsEntries ByteArray.empty source))
        (.folder (settingsEntries ByteArray.empty noText)) := .inside [_] _ .here
    have hplace : (Scanner.mk "/" (NodeIds.ofSeed "")).relative (Path.walk "/infra" ["network"]) =
        "infra/network" := by
      decide +kernel
    obtain ⟨hdiffer, hsoft⟩ := (scanPath_isolatesConfig (list_tree ByteArray.empty source)
      (list_tree ByteArray.empty noText) htree hfile rfl).2 rfl
    obtain ⟨fault, hfault⟩ := exists_fault
    obtain ⟨found', hfound'⟩ := hsoft fault hfault ⟨found, hfound⟩
    rw [hplace] at hdiffer
    exact ⟨found, found', hfound, hfound', hdiffer found found' hfound hfound'⟩

end TwoConfigs

end InfraGraph
