import InfraGraph.Proofs.Archive.Tree
import InfraGraph.Proofs.Import.Scan
import InfraGraph.Proofs.Text.Utf8

/-!
# The folder of a node

In a folder with the files of a node, a scan finds the type of the node again, unless an attached
file has the name of a configuration file that is looked for before that of the node.  It finds the
values of the node again if its configuration file reads back, and takes the other files for
attached ones.
-/

namespace InfraGraph

/-! ### Types -/

namespace NodeType

/-- What the configuration file of a type makes a folder. -/
def classification : NodeType → Classification
  | folder => .folder
  | remote _ => .module
  | type => .settings type

/-- The names of configuration files that would give a folder of the type another one. -/
def rivalNames : NodeType → List String
  | folder => settingsTypes.map outputFileName ++ [defaultFileName]
  | remote _ => settingsTypes.map outputFileName
  | type => (settingsTypes.takeWhile fun t => t ≠ type).map outputFileName

/-- The configuration file of a type is none of those that would give it another one. -/
theorem outputFileName_not_mem_rivalNames {type : NodeType} (h : type.hasOutput = true) :
    type.outputFileName ∉ type.rivalNames := by
  cases type with
  | root => cases h
  | folder => cases h
  | file => cases h
  | account => decide
  | environment => decide
  | region => decide
  | zone => decide
  | tier => decide
  | remote module =>
      simp only [outputFileName, rivalNames]
      decide

theorem fileName?_classification {type : NodeType} (hroot : type ≠ .root) (hfile : type ≠ .file) :
    type.classification.fileName? = if type.hasOutput then some type.outputFileName else none := by
  cases type with
  | root => exact absurd rfl hroot
  | file => exact absurd rfl hfile
  | _ => rfl

theorem eq_folder_of_not_hasOutput {type : NodeType} (hroot : type ≠ .root)
    (hfile : type ≠ .file) (h : type.hasOutput ≠ true) : type = .folder := by
  cases type with
  | folder => rfl
  | root => exact absurd rfl hroot
  | file => exact absurd rfl hfile
  | _ => exact absurd rfl h

theorem classification_ne_folder {type : NodeType} (h : type.hasOutput = true) :
    type.classification ≠ .folder := by
  cases type with
  | root => cases h
  | folder => cases h
  | file => cases h
  | _ => simp [classification]

end NodeType

/-- A folder with the configuration file of a type, and none that would give it another one, is of
this type. -/
theorem Classification.ofFiles_eq {type : NodeType} {names : List String} (hroot : type ≠ .root)
    (hfile : type ≠ .file) (hown : type.hasOutput = true → type.outputFileName ∈ names)
    (hrivals : ∀ name ∈ type.rivalNames, name ∉ names) :
    ofFiles names = type.classification := by
  cases type with
  | root => exact absurd rfl hroot
  | file => exact absurd rfl hfile
  | folder =>
      simp [NodeType.rivalNames, NodeType.settingsTypes, NodeType.outputFileName] at hrivals
      simp [ofFiles, NodeType.settingsTypes, NodeType.outputFileName, hrivals,
        NodeType.classification]
  | remote module =>
      have hdefault : NodeType.defaultFileName ∈ names := hown rfl
      simp [NodeType.rivalNames, NodeType.settingsTypes, NodeType.outputFileName] at hrivals
      simp [ofFiles, NodeType.settingsTypes, NodeType.outputFileName, hrivals, hdefault,
        NodeType.classification]
  | _ =>
      have hname := hown rfl
      simp [NodeType.rivalNames, NodeType.settingsTypes, NodeType.outputFileName] at hrivals hname
      simp [ofFiles, NodeType.settingsTypes, NodeType.outputFileName, hrivals, hname,
        NodeType.classification]

/-! ### Configuration files -/

/-- A configuration file says the same when it is read as when it was written. -/
def ConfigFile.ReadsBack (file : ConfigFile) (module? : Option String) : Prop :=
  ∃ config, ParsedConfig.parse file.text = .ok config ∧ config.locals = file.locals ∧
    config.inputs = file.inputs ∧ config.dependencies = file.dependencies.toList ∧
    ∀ module, module? = some module →
      ∃ source, config.source = some source ∧ ModuleSource.name? source = some module

/-- A node with given dependencies is what a folder was settled as. -/
structure Scanner.Settled.IsOf (settled : Scanner.Settled) (node : Node)
    (dependencies : SortedMap String) : Prop where
  type : settled.type = node.type
  fault : settled.fault = none
  locals : ((settled.config.map (·.locals)).getD .empty) =
    if node.type.hasOutput then node.locals else .empty
  inputs : ((settled.config.map (·.inputs)).getD .empty) =
    if node.type.hasOutput then node.inputs else .empty
  dependencies : ((settled.config.map (·.dependencies)).getD []) =
    if node.type.hasOutput then dependencies.toList else []

/-- A folder with a configuration file that reads back is settled as the node of the file. -/
theorem Scanner.exists_settleFolder_eq_ok {moduleBase : String} {node : Node}
    {dependencies : SortedMap String} {files : List (String × ByteArray)}
    (hroot : node.type ≠ .root) (hfile : node.type ≠ .file)
    (hnames : (files.map (·.1)).Nodup)
    (hown : node.type.hasOutput = true → (node.type.outputFileName,
      (Archive.configFile moduleBase node dependencies).text.toUTF8) ∈ files)
    (hreads : node.type.hasOutput = true →
      (Archive.configFile moduleBase node dependencies).ReadsBack node.type.module?) :
    ∃ settled : Settled, settled.IsOf node dependencies ∧
      ∀ path, settleFolder node.type.classification path files = .ok settled := by
  have hfileName := NodeType.fileName?_classification hroot hfile
  by_cases houtput : node.type.hasOutput = true
  · obtain ⟨config, hparse, hlocals, hinputs, hdependencies, hsource⟩ := hreads houtput
    refine ⟨⟨node.type, some config, none⟩, ⟨rfl, rfl, ?_, ?_, ?_⟩, fun path => ?_⟩
    · rw [if_pos houtput]
      exact hlocals
    · rw [if_pos houtput]
      exact hinputs
    · rw [if_pos houtput]
      exact hdependencies
    · rw [if_pos houtput] at hfileName
      have hcontents := (Entries.find?_eq_some_iff_of_nodup hnames).2 (hown houtput)
      have hread : readConfig
          (Archive.configFile moduleBase node dependencies).text.toUTF8 = .ok config := by
        rw [readConfig, fromUTF8?_toUTF8]
        exact hparse
      rw [settleFolder, hfileName]
      simp only [hcontents, Option.getD_some]
      rw [settle, hread]
      cases htype : node.type with
      | root => exact absurd htype hroot
      | file => exact absurd htype hfile
      | folder => simp [htype, NodeType.hasOutput] at houtput
      | remote module =>
          obtain ⟨source, hsome, hname⟩ := hsource module (by simp [htype, NodeType.module?])
          simp only [NodeType.classification, hsome, Option.getD_some, hname]
      | _ => rfl
  · have hfolder := NodeType.eq_folder_of_not_hasOutput hroot hfile houtput
    refine ⟨⟨.folder, none, none⟩, ⟨hfolder.symm, rfl, ?_, ?_, ?_⟩, fun path => ?_⟩
    · rw [if_neg houtput]
      rfl
    · rw [if_neg houtput]
      rfl
    · rw [if_neg houtput]
      rfl
    · rw [hfolder]
      rfl

/-! ### Attached files -/

/-- The files of a node as uploads for the node with an id. -/
def Node.uploads {σ : Type} [AttachmentStore σ] (store : σ) (id : String) (node : Node) :
    List Upload :=
  node.files.map fun file =>
    ⟨id, file.fileName, (Archive.storedContents? store file.fileId).getD .empty⟩

/-- All files but the configuration file are taken for attached ones. -/
theorem Scanner.uploadsOf_perm {σ : Type} [AttachmentStore σ] {store : σ} {node : Node}
    {files : List (String × ByteArray)} (hroot : node.type ≠ .root) (hfile : node.type ≠ .file)
    (hfiles : (files.map (·.1)).Nodup) (hnames : node.fileNames.Nodup)
    (hstored : ∀ file ∈ node.files, ∃ contents,
      Archive.storedContents? store file.fileId = some contents)
    {config : ByteArray} (hmem : ∀ name contents, (name, contents) ∈ files ↔
      (node.type.hasOutput = true ∧ name = node.type.outputFileName ∧ contents = config) ∨
        ∃ file ∈ node.files, file.fileName = name ∧
          Archive.storedContents? store file.fileId = some contents) (id : String) :
    (uploadsOf id node.type.classification files).Perm (node.uploads store id) := by
  rw [Node.fileNames, List.nodup_append] at hnames
  obtain ⟨_, hattached, hdisjoint⟩ := hnames
  have hnodup : (files.map fun file => (⟨id, file.1, file.2⟩ : Upload)).Nodup := by
    refine List.Nodup.of_map Upload.name ?_
    rw [List.map_map]
    exact hfiles
  have hnodup' : (node.uploads store id).Nodup := by
    refine List.Nodup.of_map Upload.name ?_
    rw [Node.uploads, List.map_map]
    exact hattached
  have hkept : (uploadsOf id node.type.classification files).Nodup :=
    (List.filter_sublist.map _).nodup hnodup
  -- Nothing comes twice on either side, so it is enough to compare members.
  rw [List.perm_ext_iff_of_nodup hkept hnodup']
  intro upload
  have hown : ∀ file ∈ node.files,
      node.type.classification.fileName? ≠ some file.fileName := by
    intro file hfile' hsame
    rw [NodeType.fileName?_classification hroot hfile] at hsame
    split at hsame
    · rename_i houtput
      refine hdisjoint _ ?_ _ (List.mem_map.2 ⟨file, hfile', rfl⟩) (Option.some.inj hsame)
      rw [if_pos houtput]
      exact List.mem_singleton.2 rfl
    · cases hsame
  rw [uploadsOf, Node.uploads, List.mem_map, List.mem_map]
  constructor
  · rintro ⟨⟨name, contents⟩, hfound, hupload⟩
    rw [List.mem_filter, hmem] at hfound
    obtain ⟨hfound, hother⟩ := hfound
    rcases hfound with ⟨houtput, rfl, _⟩ | ⟨file, hfile', rfl, hcontents⟩
    · rw [NodeType.fileName?_classification hroot hfile, if_pos houtput] at hother
      simp at hother
    · refine ⟨file, hfile', ?_⟩
      rw [hcontents, Option.getD_some]
      exact hupload
  · rintro ⟨file, hfile', hupload⟩
    obtain ⟨contents, hcontents⟩ := hstored file hfile'
    rw [hcontents, Option.getD_some] at hupload
    refine ⟨(file.fileName, contents), List.mem_filter.2 ⟨?_, ?_⟩, hupload⟩
    · exact (hmem _ _).2 (.inr ⟨file, hfile', rfl, hcontents⟩)
    · simpa using hown file hfile'

end InfraGraph
