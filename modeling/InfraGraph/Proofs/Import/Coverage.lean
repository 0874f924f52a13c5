import InfraGraph.Proofs.FileTree.System
import InfraGraph.Proofs.Import.Visit
import InfraGraph.Proofs.Text.ByteOrder

/-!
# Everything with files is found

Whether a folder is kept is only known after everything in it was scanned, while its id, its parent
and its type are settled before.  The outcome doesn't show this: a scan without faults finds exactly
the folders that have a plain file in them or further down, in the order of their names, and every
plain file in them either decides the type of its folder or is attached to it.
-/

namespace InfraGraph

/-- The folder has a plain file in it, or a folder further down has one. -/
def FileTree.HoldsFile (entries : List (String × FileTree)) : Prop :=
  ∃ below es, (folder entries).find? below = some (.folder es) ∧ plainFiles es ≠ []

/-- The first directory comes before the second one in pre-order, where siblings come in the order
of the bytes of their names. -/
def Path.Precedes : List String → List String → Prop :=
  List.Lex fun a b => Text.bytes a < Text.bytes b

section Precedes

variable {a b : List String}

theorem Path.Precedes.append_left (h : Precedes a b) (front : List String) :
    Precedes (front ++ a) (front ++ b) := by
  induction front with
  | nil => exact h
  | cons name front ih => exact .cons ih

theorem Path.precedes_append (a : List String) (hb : b ≠ []) : Precedes a (a ++ b) := by
  have hnil : Precedes [] b := by
    cases b with
    | nil => exact absurd rfl hb
    | cons name rest => exact .nil
  simpa using hnil.append_left a

end Precedes

theorem FileTree.HoldsFile.of_find? {entries es : List (String × FileTree)} {below : List String}
    (hfind : (folder entries).find? below = some (.folder es)) (h : HoldsFile es) :
    HoldsFile entries := by
  obtain ⟨more, es', hmore, hfiles⟩ := h
  refine ⟨below ++ more, es', ?_, hfiles⟩
  rw [find?_append, hfind]
  exact hmore

/-- Files are attached in the order of their names. -/
theorem Visit.pairwise_uploads (v : Visit) (h : Entries.Ascending v.entries) :
    v.uploads.Pairwise fun a b => Text.bytes a.name < Text.bytes b.name := by
  have hnames : ((FileTree.plainFiles v.entries).map (·.1)).Pairwise (· < ·) :=
    (List.pairwise_map.2 h).sublist (FileTree.plainFiles_sublist v.entries)
  refine List.pairwise_map.2 (((List.pairwise_map.1 hnames).filter _).imp fun hlt => ?_)
  exact Text.bytes_lt_iff.2 hlt

namespace Scanner

section Visits

variable {scanner : Scanner} {top : String} {depth : Nat} {parentId : Option String}
  {ids ids' : NodeIds} {items : List (List String × FileTree)} {found : List Visit}

/-- Trees at names that come one after the other, whatever lies below them. -/
def ItemsOrdered (items : List (List String × FileTree)) : Prop :=
  items.Pairwise fun a b => ∀ more more', Path.Precedes (a.1 ++ more) (b.1 ++ more')

theorem itemsOrdered_itemsIn {entries : List (String × FileTree)} (h : Entries.Ascending entries)
    (parts : List String) : ItemsOrdered (FileTree.itemsIn parts entries) := by
  refine List.pairwise_map.2 (h.imp fun hlt more more' => ?_)
  rw [List.append_assoc, List.append_assoc]
  exact Path.Precedes.append_left (.rel (Text.bytes_lt_iff.2 hlt)) parts

theorem wellFormed_itemsIn {entries : List (String × FileTree)}
    (h : FileTree.WellFormed (.folder entries)) (parts : List String) :
    ∀ item ∈ FileTree.itemsIn parts entries, item.2.WellFormed := by
  rw [FileTree.itemsIn, List.forall_mem_map]
  exact (FileTree.wellFormed_folder_iff.1 h).2

/-- A part of an entry is a part of the folder. -/
theorem find?_of_mem_itemsIn {entries : List (String × FileTree)}
    (h : Entries.Ascending entries) {parts : List String} {item : List String × FileTree}
    (hitem : item ∈ FileTree.itemsIn parts entries) (more : List String) :
    ∃ name, item.1 = parts ++ [name] ∧
      (FileTree.folder entries).find? (name :: more) = item.2.find? more := by
  obtain ⟨⟨name, t⟩, hentry, rfl⟩ := List.mem_map.1 hitem
  refine ⟨name, rfl, ?_⟩
  rw [FileTree.find?_folder_cons, h.find?_eq_some_iff.2 hentry]
  rfl

/-- A part of the folder other than itself is a part of one of its entries. -/
theorem exists_item_of_find? {entries : List (String × FileTree)} {name : String}
    {more : List String} {t : FileTree}
    (h : (FileTree.folder entries).find? (name :: more) = some t) (parts : List String) :
    ∃ item ∈ FileTree.itemsIn parts entries, item.1 = parts ++ [name] ∧
      item.2.find? more = some t := by
  rw [FileTree.find?_folder_cons, Option.bind_eq_some_iff] at h
  obtain ⟨child, hchild, hfind⟩ := h
  exact ⟨(parts ++ [name], child), List.mem_map.2 ⟨_, Entries.mem_of_find? hchild, rfl⟩, rfl, hfind⟩

/-- Every folder that is kept is part of one of the trees, and has a file somewhere. -/
theorem Visits.exists_item (h : Visits scanner top depth parentId ids items found ids')
    (hwell : ∀ item ∈ items, item.2.WellFormed) :
    ∀ v ∈ found, FileTree.HoldsFile v.entries ∧ ∃ item ∈ items, ∃ more,
      v.parts = item.1 ++ more ∧ item.2.find? more = some (.folder v.entries) := by
  induction h with
  | done => exact fun _ hv => absurd hv List.not_mem_nil
  | pass _ _ ih =>
      rw [List.forall_mem_cons] at hwell
      exact fun v hv => (ih hwell.2 v hv).imp_right fun ⟨item, hitem, hmore⟩ =>
        ⟨item, List.mem_cons_of_mem _ hitem, hmore⟩
  | prune _ _ _ _ _ ihrest =>
      rw [List.forall_mem_cons] at hwell
      exact fun v hv => (ihrest hwell.2 v hv).imp_right fun ⟨item, hitem, hmore⟩ =>
        ⟨item, List.mem_cons_of_mem _ hitem, hmore⟩
  | @keep depth parentId ids claimed left ids' id parts entries settled rest below found _ _ _ hused
      _ _ ihbelow ihrest =>
      rw [List.forall_mem_cons] at hwell
      have hascending := (FileTree.wellFormed_folder_iff.1 hwell.1).1
      have hbelow : ∀ v ∈ below, FileTree.HoldsFile v.entries ∧ ∃ more,
          v.parts = parts ++ more ∧
            (FileTree.folder entries).find? more = some (.folder v.entries) := by
        intro v hv
        obtain ⟨hholds, item, hitem, more, hparts, hfind⟩ :=
          ihbelow (wellFormed_itemsIn hwell.1 parts) v hv
        obtain ⟨name, hname, hentry⟩ := find?_of_mem_itemsIn hascending hitem more
        refine ⟨hholds, name :: more, ?_, hentry.trans hfind⟩
        rw [hparts, hname, List.append_assoc]
        rfl
      have hown : FileTree.HoldsFile entries := by
        rcases hused with hfiles | hsome
        · exact ⟨[], entries, FileTree.find?_nil _, hfiles⟩
        · obtain ⟨v, hv⟩ := List.exists_mem_of_ne_nil _ hsome
          obtain ⟨hholds, more, _, hfind⟩ := hbelow v hv
          exact hholds.of_find? hfind
      rw [List.forall_mem_cons, List.forall_mem_append]
      refine ⟨⟨hown, _, List.mem_cons_self, [], by simp, FileTree.find?_nil _⟩, fun v hv => ?_,
        fun v hv => ?_⟩
      · obtain ⟨hholds, more, hparts, hfind⟩ := hbelow v hv
        exact ⟨hholds, _, List.mem_cons_self, more, hparts, hfind⟩
      · exact (ihrest hwell.2 v hv).imp_right fun ⟨item, hitem, hmore⟩ =>
          ⟨item, List.mem_cons_of_mem _ hitem, hmore⟩

/-- Every folder of the trees that has a file somewhere is kept. -/
theorem Visits.exists_visit (h : Visits scanner top depth parentId ids items found ids') :
    ∀ item ∈ items, ∀ more es, item.2.find? more = some (.folder es) → FileTree.HoldsFile es →
      ∃ v ∈ found, v.parts = item.1 ++ more ∧ v.entries = es := by
  induction h with
  | done => exact fun _ hitem => absurd hitem List.not_mem_nil
  | @pass depth parentId ids ids' parts t rest found hfolder _ ih =>
      rw [List.forall_mem_cons]
      refine ⟨fun more es hfind => ?_, ih⟩
      cases t with
      | folder entries => cases hfolder
      | file contents => cases more <;> cases hfind
      | link target => cases more <;> cases hfind
  | @prune depth parentId ids claimed left ids' id parts entries rest found _ hfiles _ _ ihbelow
      ihrest =>
      rw [List.forall_mem_cons]
      refine ⟨fun more es hfind hholds => ?_, ihrest⟩
      -- A folder without files in it that keeps none of its folders has no file anywhere.
      obtain ⟨below, es', hbelow, hsome⟩ := hholds.of_find? hfind
      cases below with
      | nil =>
          rw [FileTree.find?_nil] at hbelow
          obtain rfl : entries = es' := by simpa using hbelow
          exact absurd hfiles hsome
      | cons name below =>
          obtain ⟨item, hitem, _, hentry⟩ := exists_item_of_find? hbelow parts
          obtain ⟨v, hv, _⟩ := ihbelow item hitem below es' hentry
            ⟨[], es', FileTree.find?_nil _, hsome⟩
          exact absurd hv List.not_mem_nil
  | @keep depth parentId ids claimed left ids' id parts entries settled rest below found _ _ _ _ _ _
      ihbelow ihrest =>
      rw [List.forall_mem_cons]
      refine ⟨fun more es hfind hholds => ?_, fun item hitem more es hfind hholds => ?_⟩
      · cases more with
        | nil =>
            rw [FileTree.find?_nil] at hfind
            obtain rfl : entries = es := by simpa using hfind
            exact ⟨_, List.mem_cons_self, by simp, rfl⟩
        | cons name more =>
            obtain ⟨item, hitem, hname, hentry⟩ := exists_item_of_find? hfind parts
            obtain ⟨v, hv, hparts, hes⟩ := ihbelow item hitem more es hentry hholds
            refine ⟨v, List.mem_cons_of_mem _ (List.mem_append_left _ hv), ?_, hes⟩
            rw [hparts, hname, List.append_assoc]
            rfl
      · obtain ⟨v, hv, hparts⟩ := ihrest item hitem more es hfind hholds
        exact ⟨v, List.mem_cons_of_mem _ (List.mem_append_right _ hv), hparts⟩

/-- Folders are kept in the order of their names. -/
theorem Visits.pairwise_precedes (h : Visits scanner top depth parentId ids items found ids')
    (hwell : ∀ item ∈ items, item.2.WellFormed) (hordered : ItemsOrdered items) :
    found.Pairwise fun v w => Path.Precedes v.parts w.parts := by
  induction h with
  | done => exact .nil
  | pass _ _ ih => exact ih (List.forall_mem_cons.1 hwell).2 (List.pairwise_cons.1 hordered).2
  | prune _ _ _ _ _ ihrest =>
      exact ihrest (List.forall_mem_cons.1 hwell).2 (List.pairwise_cons.1 hordered).2
  | @keep depth parentId ids claimed left ids' id parts entries settled rest below found _ _ _ _
      hbelow hrest ihbelow ihrest =>
      rw [List.forall_mem_cons] at hwell
      rw [ItemsOrdered, List.pairwise_cons] at hordered
      have hascending := (FileTree.wellFormed_folder_iff.1 hwell.1).1
      have hinner : ∀ v ∈ below, ∃ name more, v.parts = parts ++ (name :: more) := by
        intro v hv
        obtain ⟨_, item, hitem, more, hparts, _⟩ :=
          hbelow.exists_item (wellFormed_itemsIn hwell.1 parts) v hv
        obtain ⟨name, hname, _⟩ := find?_of_mem_itemsIn hascending hitem more
        exact ⟨name, more, by rw [hparts, hname, List.append_assoc]; rfl⟩
      have hlater : ∀ w ∈ found, ∀ more, Path.Precedes (parts ++ more) w.parts := by
        intro w hw more
        obtain ⟨_, item, hitem, more', hparts, _⟩ := hrest.exists_item hwell.2 w hw
        rw [hparts]
        exact hordered.1 item hitem more more'
      rw [List.pairwise_cons, List.pairwise_append]
      refine ⟨fun w hw => ?_, ihbelow (wellFormed_itemsIn hwell.1 parts)
        (itemsOrdered_itemsIn hascending parts), ihrest hwell.2 hordered.2, fun v hv w hw => ?_⟩
      · rcases List.mem_append.1 hw with hw | hw
        · obtain ⟨name, more, hparts⟩ := hinner w hw
          rw [hparts]
          exact Path.precedes_append _ (List.cons_ne_nil name more)
        · simpa using hlater w hw []
      · obtain ⟨name, more, hparts⟩ := hinner v hv
        rw [hparts]
        exact hlater w hw (name :: more)

end Visits

/-! ### Configuration files -/

/-- The configuration file among the files of a folder that decides the type of its node, that type,
and what is wrong with the file. -/
inductive DecidedBy (files : List (String × ByteArray)) :
    (config? : Option String) → NodeType → Option ConfigFault → Prop
  /-- The first settings file that there is decides, whatever is in it. -/
  | settings {before after : List NodeType} {type : NodeType} {fault : Option ConfigFault}
    (hsplit : NodeType.settingsTypes = before ++ type :: after)
    (hbefore : ∀ other ∈ before, other.outputFileName ∉ files.map (·.1))
    (hfile : type.outputFileName ∈ files.map (·.1)) :
    DecidedBy files (some type.outputFileName) type fault
  /-- Without settings files, `terragrunt.hcl` makes the folder a module. -/
  | module {contents : ByteArray} {config : ParsedConfig} {module : String}
    (hnone : ∀ type ∈ NodeType.settingsTypes, type.outputFileName ∉ files.map (·.1))
    (hfile : Entries.find? NodeType.defaultFileName files = some contents)
    (hread : readConfig contents = .ok config)
    (hmodule : ModuleSource.name? (config.source.getD "") = some module) :
    DecidedBy files (some NodeType.defaultFileName) (.remote module) none
  /-- If it can't be read the folder stays one, and its node says what is wrong. -/
  | unusable {contents : ByteArray} {fault : ConfigFault}
    (hnone : ∀ type ∈ NodeType.settingsTypes, type.outputFileName ∉ files.map (·.1))
    (hfile : Entries.find? NodeType.defaultFileName files = some contents)
    (hread : readConfig contents = .error fault) :
    DecidedBy files (some NodeType.defaultFileName) .folder (some fault)
  | folder (hnone : ∀ type ∈ NodeType.settingsTypes, type.outputFileName ∉ files.map (·.1))
    (hfile : NodeType.defaultFileName ∉ files.map (·.1)) : DecidedBy files none .folder none

example : NodeType.settingsTypes.map NodeType.outputFileName =
    ["account.hcl", "env.hcl", "region.hcl", "zone.hcl", "tier.hcl"] := rfl

theorem decidedBy_of_settleFolder {files : List (String × ByteArray)} {path : String}
    {settled : Settled}
    (h : settleFolder (Classification.ofFiles (files.map (·.1))) path files = .ok settled) :
    DecidedBy files (Classification.ofFiles (files.map (·.1))).fileName? settled.type
      settled.fault := by
  rw [Classification.ofFiles] at h ⊢
  cases hfind : NodeType.settingsTypes.find? fun t =>
      (files.map (·.1)).contains t.outputFileName with
  | some type =>
      rw [hfind] at h
      obtain ⟨hfile, before, after, hsplit, hbefore⟩ := List.find?_eq_some_iff_append.1 hfind
      have htype : settled.type = type := by
        simp only [settleFolder, Classification.fileName?, settle] at h
        split at h <;> exact (Except.ok.inj h) ▸ rfl
      rw [htype]
      exact .settings hsplit (by simpa using hbefore) (by simpa using hfile)
  | none =>
      rw [hfind] at h
      have hnone : ∀ type ∈ NodeType.settingsTypes, type.outputFileName ∉ files.map (·.1) := by
        simpa [List.find?_eq_none] using hfind
      by_cases hfile : NodeType.defaultFileName ∈ files.map (·.1)
      · have hcontains : (files.map (·.1)).contains NodeType.defaultFileName = true := by
          simpa using hfile
        simp only [hcontains, if_true, settleFolder, Classification.fileName?, settle] at h ⊢
        cases hcontents : Entries.find? NodeType.defaultFileName files with
        | none => exact absurd hfile (Entries.find?_eq_none_iff.1 hcontents)
        | some contents =>
            rw [hcontents, Option.getD_some] at h
            cases hread : readConfig contents with
            | error fault =>
                rw [hread] at h
                obtain rfl := Except.ok.inj h
                exact .unusable hnone hcontents hread
            | ok config =>
                rw [hread] at h
                simp only at h
                cases hmodule : ModuleSource.name? (config.source.getD "") with
                | none =>
                    rw [hmodule] at h
                    cases h
                | some module =>
                    rw [hmodule] at h
                    obtain rfl := Except.ok.inj h
                    exact .module hnone hcontents hread hmodule
      · have hcontains : (files.map (·.1)).contains NodeType.defaultFileName = false := by
          simpa using hfile
        simp only [hcontains, Bool.false_eq_true, if_false, settleFolder,
          Classification.fileName?] at h ⊢
        obtain rfl := Except.ok.inj h
        exact .folder hnone hfile

/-! ### What a scan finds -/

/-- The node of a folder and its uploads are those that its files ask for. -/
structure IsRowOf (scanner : Scanner) (path : String)
    (place : List String × List (String × FileTree)) (row : ScannedNode × List Upload) :
    Prop where
  path : row.1.path = scanner.relative (Path.walk path place.1)
  /-- One file at most decides the type of the node, and all others are attached to it. -/
  decided : ∃ config?,
    DecidedBy (FileTree.plainFiles place.2) config? row.1.node.type row.1.fault ∧
      row.2 = ((FileTree.plainFiles place.2).filter fun file => config? ≠ some file.1).map
        fun file => ⟨row.1.node.id, file.1, file.2⟩
  files : row.1.node.files = row.2.map Upload.reference
  ordered : row.2.Pairwise fun a b => Text.bytes a.name < Text.bytes b.name

/-- What a scan finds in a folder: the folders at `places` with the nodes and uploads in `rows`. -/
structure FindsFolders (scanner : Scanner) (path : String) (entries : List (String × FileTree))
    (output : ScanOutput) (uploads : List Upload)
    (places : List (List String × List (String × FileTree)))
    (rows : List (ScannedNode × List Upload)) : Prop where
  mem_places : ∀ parts es, (parts, es) ∈ places ↔
    (FileTree.folder entries).find? parts = some (.folder es) ∧ FileTree.HoldsFile es
  ordered : places.Pairwise fun a b => Path.Precedes a.1 b.1
  describes : List.Forall₂ (IsRowOf scanner path) places rows
  nodes : output.nodes = rows.map (·.1)
  uploads : uploads = rows.flatMap (·.2)

end Scanner

/-- A scan that succeeds finds exactly the folders that have a plain file in them or further down,
each once and in the order of a walk by name.  Every plain file in them decides the type of its
folder or is attached to it, and nothing else becomes a node or an attachment. -/
theorem scanPath_findsFolders {scanner : Scanner} {fs : FileSystem} {path : String} {depth : Nat}
    {parentId : Option String} {ids : NodeIds} {output : ScanOutput} {uploads : List Upload}
    (hwell : fs.root.WellFormed)
    (h : (scanner.scanPath fs path depth parentId ids).1.result = .ok (output, uploads)) :
    ∃ entries places rows, fs.list path = .ok entries ∧
      scanner.FindsFolders path entries output uploads places rows := by
  unfold Scanner.scanPath at h
  cases hlist : fs.list path with
  | error e =>
      rw [hlist] at h
      exact absurd (Scanned.result_eq_ok_iff.1 h).1 (List.cons_ne_nil _ _)
  | ok entries =>
      rw [hlist] at h
      obtain ⟨hfaults, rfl, rfl⟩ := Scanned.result_eq_ok_iff.1 h
      obtain ⟨found, hvisits, hyields⟩ := Scanner.exists_visits_scanFolder hfaults
      obtain ⟨names, hnames⟩ := FileSystem.exists_find?_of_list hlist
      have hwell' : ∀ item ∈ [(([] : List String), FileTree.folder entries)],
          item.2.WellFormed :=
        List.forall_mem_singleton.2 (hwell.of_find? hnames)
      refine ⟨entries, found.map fun v => (v.parts, v.entries),
        found.map fun v => (v.scannedNode scanner path, v.uploads), rfl,
        ⟨fun parts es => ?_, ?_, ?_, ?_, ?_⟩⟩
      · rw [List.mem_map]
        constructor
        · rintro ⟨v, hv, heq⟩
          obtain ⟨rfl, rfl⟩ := Prod.mk.inj heq
          obtain ⟨hholds, item, hitem, more, hparts, hfind⟩ := hvisits.exists_item hwell' v hv
          obtain rfl := List.mem_singleton.1 hitem
          rw [hparts]
          exact ⟨hfind, hholds⟩
        · rintro ⟨hfind, hholds⟩
          obtain ⟨v, hv, hparts, rfl⟩ := hvisits.exists_visit _ (List.mem_singleton_self _) parts es
            hfind hholds
          exact ⟨v, hv, by rw [hparts]; rfl⟩
      · exact List.pairwise_map.2
          (hvisits.pairwise_precedes hwell' (List.pairwise_singleton _ _))
      · rw [List.forall₂_map_left_iff, List.forall₂_map_right_iff, List.forall₂_same]
        intro v hv
        obtain ⟨_, item, hitem, more, _, hfind⟩ := hvisits.exists_item hwell' v hv
        have hascending := (FileTree.wellFormed_folder_iff.1
          ((hwell' item hitem).of_find? hfind)).1
        exact ⟨rfl, ⟨_, Scanner.decidedBy_of_settleFolder (hvisits.settleFolder v hv), rfl⟩, rfl,
          v.pairwise_uploads hascending⟩
      · rw [hyields, Visit.nodes_join_yields, List.map_map]
        rfl
      · rw [hyields, Visit.uploads_join_yields, List.flatMap_map]

namespace SparseTree

/-- A folder with settings, a link, and a folder that has nothing but a folder without files. -/
def tree : FileSystem :=
  ⟨.folder [("infra", .folder [
    ("account.hcl", .file ByteArray.empty),
    ("empty", .folder [("inner", .folder [])]),
    ("link", .link "account.hcl"),
    ("notes.txt", .file ByteArray.empty)])], []⟩

theorem wellFormed_tree : tree.root.WellFormed := by
  simp only [tree, FileTree.WellFormed, FileTree.AllWellFormed, Entries.Ascending, and_true,
    true_and]
  decide

/-- The scan of the folder succeeds, so what it finds is known. -/
theorem findsFolders_tree : tree.root.WellFormed ∧ ∃ output uploads,
    ((Scanner.mk "/" (NodeIds.ofSeed "")).scanPath tree "/infra" 0 none .empty).1.result =
      .ok (output, uploads) ∧
    ∃ entries places rows, tree.list "/infra" = .ok entries ∧
      (Scanner.mk "/" (NodeIds.ofSeed "")).FindsFolders "/infra" entries output uploads places
        rows := by
  have hok : ((Scanner.mk "/" (NodeIds.ofSeed "")).scanPath tree "/infra" 0 none
      .empty).1.result.isOk = true := by
    decide +kernel
  obtain ⟨found, hresult⟩ := exists_ok_of_isOk hok
  exact ⟨wellFormed_tree, found.1, found.2, hresult, scanPath_findsFolders wellFormed_tree hresult⟩

end SparseTree

end InfraGraph
