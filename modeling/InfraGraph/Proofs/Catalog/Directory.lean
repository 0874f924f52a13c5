import InfraGraph.Catalog.Directory
import InfraGraph.Proofs.FileTree.System
import InfraGraph.Proofs.Import.Places

/-!
# What a catalog of directories lists

The walk over a tree looks for modules directory by directory, and for a file with variables among
the entries of each.  Seen from the tree, a catalog lists exactly the directories with such a file,
in pre-order, and what it says about one of them depends on a single file in it.  A file that isn't
well-formed therefore costs its own module its inputs, and nothing else; one that isn't text makes
the whole catalog fail.
-/

namespace InfraGraph

theorem forall₂_append_left_iff {α β : Type} {R : α → β → Prop} {front back : List α}
    {l : List β} : List.Forall₂ R (front ++ back) l ↔
      ∃ m n, List.Forall₂ R front m ∧ List.Forall₂ R back n ∧ l = m ++ n := by
  constructor
  · intro h
    induction front generalizing l with
    | nil => exact ⟨[], l, .nil, h, rfl⟩
    | cons a front ih =>
        cases h with
        | cons hab hrest =>
            obtain ⟨m, n, hm, hn, rfl⟩ := ih hrest
            exact ⟨_ :: m, n, .cons hab hm, hn, rfl⟩
  · rintro ⟨m, n, hm, hn, rfl⟩
    induction hm with
    | nil => exact hn
    | cons hab _ ih => exact .cons hab ih

namespace FileTree

theorem exists_of_mem_foldersOf {es : List (String × FileTree)}
    (hall : ∀ entry ∈ es, entry.2.WellFormed) {path parts : List String}
    (h : parts ∈ (foldersOf path es).map (·.1)) :
    ∃ entry ∈ es, ∃ rest, parts = path ++ entry.1 :: rest := by
  obtain ⟨found, hfound, rfl⟩ := List.mem_map.1 h
  obtain ⟨entry, hentry, hmem⟩ := mem_foldersOf.1 hfound
  obtain ⟨rest, hpath, _⟩ := (mem_foldersIn (hall entry hentry)).1 hmem
  exact ⟨entry, hentry, rest, by simp [hpath]⟩

theorem pairwise_foldersOf_of_forall {es : List (String × FileTree)}
    (hascending : Entries.Ascending es) (hall : ∀ entry ∈ es, entry.2.WellFormed)
    (h : ∀ entry ∈ es, ∀ path, ((foldersIn path entry.2).map (·.1)).Pairwise Path.Precedes)
    (path : List String) : ((foldersOf path es).map (·.1)).Pairwise Path.Precedes := by
  induction es with
  | nil => exact .nil
  | cons entry rest ih =>
      obtain ⟨name, t⟩ := entry
      rw [List.forall_mem_cons] at hall h
      rw [foldersOf, List.map_append, List.pairwise_append]
      refine ⟨h.1 _, ih hascending.tail hall.2 h.2, fun parts hparts later hlater => ?_⟩
      obtain ⟨found, hfound, rfl⟩ := List.mem_map.1 hparts
      obtain ⟨inner, hpath, _⟩ := (mem_foldersIn hall.1).1 hfound
      obtain ⟨entry, hentry, more, rfl⟩ := exists_of_mem_foldersOf hall.2 hlater
      have hname : name < entry.1 := (List.pairwise_cons.1 hascending).1 entry hentry
      rw [hpath, List.append_assoc]
      exact Path.Precedes.append_left (.rel (Text.bytes_lt_iff.2 hname)) path

/-- Folders come in pre-order, where siblings come in the order of the bytes of their names. -/
theorem pairwise_foldersIn {t : FileTree} (h : t.WellFormed) (path : List String) :
    ((foldersIn path t).map (·.1)).Pairwise Path.Precedes := by
  induction t using inductionOn generalizing path with
  | file contents => exact .nil
  | link target => exact .nil
  | folder es ih =>
      obtain ⟨hascending, hall⟩ := wellFormed_folder_iff.1 h
      rw [foldersIn, List.map_cons, List.pairwise_cons]
      refine ⟨fun parts hparts => ?_, pairwise_foldersOf_of_forall hascending hall
        (fun entry hentry => ih entry hentry (hall entry hentry)) path⟩
      obtain ⟨entry, _, rest, rfl⟩ := exists_of_mem_foldersOf hall hparts
      exact Path.precedes_append path (List.cons_ne_nil _ rest)

end FileTree

namespace Catalog

/-! ### What there is to list -/

/-- A plain file in a directory that can hold variables. -/
structure IsVariablesFile (tree : FileTree) (parts : List String) (name : String)
    (contents : ByteArray) : Prop where
  start : ∃ rest, name = "variable" ++ rest
  file : tree.kindAt (parts ++ [name]) = some (.file contents)

/-- The first of these files in the order of the bytes of their names. -/
structure IsFirstVariablesFile (tree : FileTree) (parts : List String) (name : String)
    (contents : ByteArray) : Prop extends IsVariablesFile tree parts name contents where
  first : ∀ other contents', IsVariablesFile tree parts other contents' → other ≠ name →
    Text.bytes name < Text.bytes other

/-- A directory below the root with a file that can hold variables. -/
structure IsModule (tree : FileTree) (parts : List String) : Prop where
  ne_nil : parts ≠ []
  folder : tree.kindAt parts = some .folder
  file : ∃ name contents, IsVariablesFile tree parts name contents

/-- The text of the last attribute of a block with a key, if there is any. -/
inductive LastText (block : Hcl.Block) (key : String) : Option String → Prop
  | missing (h : ∀ entry ∈ block.body.attributes, entry.1 ≠ key) : LastText block key none
  | last {value : Hcl.Expression} {front back : List (String × Hcl.Expression)}
    (hsplit : block.body.attributes = front ++ (key, value) :: back)
    (hlast : ∀ entry ∈ back, entry.1 ≠ key) : LastText block key (some value.text)

/-- The input that a block with a label declares. -/
structure IsInput (block : Hcl.Block) (input : ModuleInput) : Prop where
  name : block.labels.head? = some input.name
  default : LastText block "default" input.default
  type : LastText block "type" input.type
  required : input.required = true ↔ input.default = none

/-- The blocks that declare inputs, in their order. -/
def inputBlocks (body : Hcl.Body) : List Hcl.Block :=
  body.blocks.filter fun block => block.type = "variable" ∧ block.labels ≠ []

/-- The inputs that the text of a file declares. -/
inductive Declares (text : String) : List ModuleInput → Prop
  | blocks {body : Hcl.Body} {inputs : List ModuleInput} (hparse : Hcl.parse? text = some body)
    (hinputs : List.Forall₂ IsInput (inputBlocks body) inputs) : Declares text inputs
  | malformed (hparse : Hcl.parse? text = none) : Declares text []

/-- What a catalog says about a directory. -/
structure IsEntry (tree : FileTree) (parts : List String) (entry : CatalogEntry) : Prop where
  name : entry.moduleName = Path.unsplit parts
  inputs : ∃ file contents text, IsFirstVariablesFile tree parts file contents ∧
    String.fromUTF8? contents = some text ∧ Declares text entry.inputs

/-- A catalog lists all modules of a tree in pre-order. -/
structure Lists (tree : FileTree) (modules : List (List String)) (entries : List CatalogEntry) :
    Prop where
  ascending : modules.Pairwise Path.Precedes
  mem_iff : ∀ parts, parts ∈ modules ↔ IsModule tree parts
  entries : List.Forall₂ (IsEntry tree) modules entries

/-! ### Inputs -/

section Inputs

variable {block : Hcl.Block} {input : ModuleInput} {text : String}

theorem lastText_iff {key : String} {text? : Option String} :
    LastText block key text? ↔
      text? = ((block.body.attributes.reverse.find? fun entry => entry.1 = key).map (·.2)).map
        Hcl.Expression.text := by
  constructor
  · rintro (hmissing | @⟨value, front, back, hsplit, hlast⟩)
    · rw [List.find?_eq_none.2 fun entry hentry => by
        simpa using hmissing entry (List.mem_reverse.1 hentry)]
      rfl
    · have hback : (back.reverse.find? fun entry => entry.1 = key) = none := by
        simpa [List.find?_eq_none] using hlast
      rw [hsplit, List.reverse_append, List.reverse_cons, List.append_assoc, List.find?_append,
        hback]
      simp
  · rintro rfl
    cases hfind : block.body.attributes.reverse.find? fun entry => entry.1 = key with
    | none =>
        refine .missing fun entry hentry => ?_
        simpa using List.find?_eq_none.1 hfind entry (List.mem_reverse.2 hentry)
    | some entry =>
        obtain ⟨hkey, back, front, hsplit, hlast⟩ := List.find?_eq_some_iff_append.1 hfind
        obtain ⟨key', value⟩ := entry
        obtain rfl : key' = key := by simpa using hkey
        have hsplit' : block.body.attributes = front.reverse ++ (key', value) :: back.reverse := by
          rw [← List.reverse_reverse block.body.attributes, hsplit]
          simp
        exact .last hsplit' fun entry hentry => by
          simpa using hlast entry (List.mem_reverse.1 hentry)

theorem isInput_iff {name : String} (h : block.labels.head? = some name) :
    IsInput block input ↔ input = ModuleInput.ofBlock name block := by
  constructor
  · rintro ⟨hname, hdefault, htype, hrequired⟩
    rw [lastText_iff] at hdefault htype
    obtain ⟨name', default, type, required⟩ := input
    obtain rfl := Option.some.inj (h.symm.trans hname)
    simp only at hdefault htype hrequired
    subst hdefault htype
    rw [ModuleInput.ofBlock, ModuleInput.mk.injEq]
    refine ⟨rfl, rfl, rfl, Bool.eq_iff_iff.2 (hrequired.trans ?_)⟩
    rw [Option.isNone_iff_eq_none]
  · rintro rfl
    refine ⟨h, lastText_iff.2 rfl, lastText_iff.2 rfl, ?_⟩
    exact Option.isNone_iff_eq_none

theorem forall₂_isInput_iff {body : Hcl.Body} {inputs : List ModuleInput} :
    List.Forall₂ IsInput (inputBlocks body) inputs ↔ inputs = ModuleInput.ofBody body := by
  rw [inputBlocks, ModuleInput.ofBody]
  generalize body.blocks = blocks
  induction blocks generalizing inputs with
  | nil => exact List.forall₂_nil_left_iff
  | cons block blocks ih =>
      rw [List.filterMap_cons]
      by_cases hblock : block.type = "variable" ∧ block.labels ≠ []
      · obtain ⟨name, rest, hlabels⟩ := List.exists_cons_of_ne_nil hblock.2
        have hname : block.labels.head? = some name := by rw [hlabels, List.head?_cons]
        rw [List.filter_cons_of_pos (by simpa using hblock), if_pos hblock.1, hname]
        constructor
        · rintro (_ | ⟨hinput, hrest⟩)
          rw [(isInput_iff hname).1 hinput, ih.1 hrest]
          rfl
        · rintro rfl
          exact .cons ((isInput_iff hname).2 rfl) (ih.2 rfl)
      · rw [List.filter_cons_of_neg (by simpa using hblock), ih]
        by_cases htype : block.type = "variable"
        · obtain hlabels : block.labels = [] := by simpa [htype] using hblock
          rw [if_pos htype, hlabels]
          rfl
        · rw [if_neg htype]

theorem declares_iff {inputs : List ModuleInput} :
    Declares text inputs ↔ inputs = ModuleInput.ofText text := by
  rw [ModuleInput.ofText]
  constructor
  · rintro (⟨hparse, hinputs⟩ | hparse)
    · rw [hparse]
      exact forall₂_isInput_iff.1 hinputs
    · rw [hparse]
      rfl
  · rintro rfl
    cases hparse : Hcl.parse? text with
    | none => exact .malformed hparse
    | some body => exact .blocks hparse (forall₂_isInput_iff.2 rfl)

end Inputs

/-! ### Files with variables -/

/-- The modules among some folders. -/
def modulesAmong (places : List (List String × List (String × FileTree))) : List (List String) :=
  (places.filter fun place => (variablesFile? place.2).isSome).map (·.1)

theorem modulesAmong_append (front back : List (List String × List (String × FileTree))) :
    modulesAmong (front ++ back) = modulesAmong front ++ modulesAmong back := by
  rw [modulesAmong, List.filter_append, List.map_append]
  rfl

section Files

variable {tree : FileTree} {parts : List String} {es : List (String × FileTree)} {name : String}
  {contents : ByteArray}

theorem isVariablesFile_iff : isVariablesFile name = true ↔ ∃ rest, name = "variable" ++ rest := by
  rw [isVariablesFile, List.isPrefixOf_iff_prefix]
  constructor
  · rintro ⟨rest, hrest⟩
    refine ⟨String.ofList rest, String.toList_inj.1 ?_⟩
    rw [String.toList_append, ← hrest, variablesStart]
    simp
  · rintro ⟨rest, rfl⟩
    rw [String.toList_append]
    exact List.prefix_append _ _

theorem IsFirstVariablesFile.unique {name' : String} {contents' : ByteArray}
    (h : IsFirstVariablesFile tree parts name contents)
    (h' : IsFirstVariablesFile tree parts name' contents') :
    name = name' ∧ contents = contents' := by
  obtain rfl : name = name' := by
    by_contra hne
    have hlt := h.first _ _ h'.toIsVariablesFile (Ne.symm hne)
    have hlt' := h'.first _ _ h.toIsVariablesFile hne
    exact List.lt_asymm hlt hlt'
  have hsame := Option.some.inj (h.file.symm.trans h'.file)
  exact ⟨rfl, FileTree.Kind.file.inj hsame⟩

theorem IsFirstVariablesFile.isEntry_iff {entry : CatalogEntry}
    (h : IsFirstVariablesFile tree parts name contents) : IsEntry tree parts entry ↔
      ∃ text, String.fromUTF8? contents = some text ∧
        entry = ⟨Path.unsplit parts, ModuleInput.ofText text⟩ := by
  constructor
  · rintro ⟨hname, file, contents', text, hfirst, htext, hdeclares⟩
    obtain ⟨rfl, rfl⟩ := h.unique hfirst
    obtain ⟨moduleName, inputs⟩ := entry
    exact ⟨text, htext, by rw [CatalogEntry.mk.injEq]; exact ⟨hname, declares_iff.1 hdeclares⟩⟩
  · rintro ⟨text, htext, rfl⟩
    exact ⟨rfl, name, contents, text, h, htext, declares_iff.2 rfl⟩

variable (hfind : tree.find? parts = some (.folder es)) (hes : Entries.Ascending es)

include hfind hes

theorem isVariablesFile_iff_mem : IsVariablesFile tree parts name contents ↔
    (name, contents) ∈ FileTree.plainFiles es ∧ isVariablesFile name = true := by
  rw [FileTree.mem_plainFiles_iff_kindAt hfind hes, isVariablesFile_iff]
  exact ⟨fun h => ⟨h.file, h.start⟩, fun h => ⟨h.2, h.1⟩⟩

theorem variablesFile?_eq_none_iff : variablesFile? es = none ↔
    ∀ name contents, ¬ IsVariablesFile tree parts name contents := by
  simp only [variablesFile?, List.find?_eq_none, isVariablesFile_iff_mem hfind hes, not_and,
    Prod.forall]

theorem isFirst_of_variablesFile? (h : variablesFile? es = some (name, contents)) :
    IsFirstVariablesFile tree parts name contents := by
  have hsorted : ((FileTree.plainFiles es).map (·.1)).Pairwise (· < ·) :=
    (List.pairwise_map.2 hes).sublist (FileTree.plainFiles_sublist es)
  obtain ⟨hstart, front, back, hsplit, hfront⟩ := List.find?_eq_some_iff_append.1 h
  refine ⟨(isVariablesFile_iff_mem hfind hes).2 ⟨by simp [hsplit], hstart⟩,
    fun other contents' hother hne => ?_⟩
  obtain ⟨hmem, hstart'⟩ := (isVariablesFile_iff_mem hfind hes).1 hother
  rw [hsplit, List.mem_append, List.mem_cons] at hmem
  rw [hsplit, List.map_append, List.map_cons] at hsorted
  -- What comes before the file doesn't have the name for it.
  rcases hmem with hmem | heq | hmem
  · simpa [hstart'] using hfront _ hmem
  · exact absurd (congrArg Prod.fst heq) hne
  · exact Text.bytes_lt_iff.2 ((List.pairwise_cons.1 (List.pairwise_append.1 hsorted).2.1).1 other
      (List.mem_map.2 ⟨_, hmem, rfl⟩))

theorem variablesFile?_eq_some_iff : variablesFile? es = some (name, contents) ↔
    IsFirstVariablesFile tree parts name contents := by
  refine ⟨isFirst_of_variablesFile? hfind hes, fun h => ?_⟩
  cases hfile : variablesFile? es with
  | none => exact absurd h.toIsVariablesFile ((variablesFile?_eq_none_iff hfind hes).1 hfile _ _)
  | some file =>
      obtain ⟨rfl, rfl⟩ := h.unique (isFirst_of_variablesFile? hfind hes hfile)
      rfl

theorem isSome_variablesFile?_iff : (variablesFile? es).isSome = true ↔
    ∃ name contents, IsVariablesFile tree parts name contents := by
  rw [Option.isSome_iff_ne_none, ne_eq, variablesFile?_eq_none_iff hfind hes]
  simp only [not_forall, not_not]

/-- What a single directory adds to a catalog. -/
theorem moduleOf_eq_ok_iff {path : String} {entries : List CatalogEntry} :
    moduleOf path parts es = .ok entries ↔
      List.Forall₂ (IsEntry tree) (modulesAmong [(parts, es)]) entries := by
  cases hfile : variablesFile? es with
  | none =>
      have hnone : modulesAmong [(parts, es)] = [] := by simp [modulesAmong, hfile]
      rw [hnone, List.forall₂_nil_left_iff, moduleOf, hfile, Except.ok.injEq, eq_comm]
  | some file =>
      obtain ⟨name, contents⟩ := file
      have hfirst := isFirst_of_variablesFile? hfind hes hfile
      have hone : modulesAmong [(parts, es)] = [parts] := by simp [modulesAmong, hfile]
      rw [hone, List.forall₂_cons_left_iff, moduleOf, hfile]
      simp only [hfirst.isEntry_iff, List.forall₂_nil_left_iff]
      cases String.fromUTF8? contents with
      | none => simp
      | some text => simp [eq_comm]

end Files

/-! ### The walk -/

section Walk

variable {tree : FileTree}

/-- The modules in a tree that is part of another one are found where that one has them. -/
def IsWalked (tree t : FileTree) : Prop :=
  ∀ (path : String) (parts : List String) (entries : List CatalogEntry),
    tree.find? parts = some t → (modulesAt path parts t = .ok entries ↔
      List.Forall₂ (IsEntry tree) (modulesAmong (FileTree.foldersIn parts t)) entries)

theorem modulesBelow_eq_ok_iff_of_forall {es : List (String × FileTree)}
    (hall : ∀ entry ∈ es, IsWalked tree entry.2) {path : String} {parts : List String}
    (hfind : ∀ entry ∈ es, tree.find? (parts ++ [entry.1]) = some entry.2)
    {entries : List CatalogEntry} : modulesBelow path parts es = .ok entries ↔
      List.Forall₂ (IsEntry tree) (modulesAmong (FileTree.foldersOf parts es)) entries := by
  induction es generalizing entries with
  | nil =>
      rw [modulesBelow, Except.ok.injEq, eq_comm]
      exact List.forall₂_nil_left_iff.symm
  | cons entry rest ih =>
      obtain ⟨name, t⟩ := entry
      rw [List.forall_mem_cons] at hall hfind
      rw [modulesBelow, FileTree.foldersOf, modulesAmong_append, forall₂_append_left_iff,
        bind_eq_ok_iff]
      refine exists_congr fun first => ?_
      simp only [bind_eq_ok_iff, hall.1 _ _ first hfind.1, ih hall.2 hfind.2]
      simp [pure, Except.pure, eq_comm]

theorem isWalked (hwell : tree.WellFormed) (t : FileTree) : IsWalked tree t := by
  induction t using FileTree.inductionOn with
  | file contents | link target =>
      intro path parts entries _
      rw [modulesAt, Except.ok.injEq, eq_comm]
      exact List.forall₂_nil_left_iff.symm
  | folder es ih =>
      intro path parts entries hfind
      have hes := (FileTree.wellFormed_folder_iff.1 (hwell.of_find? hfind)).1
      have hbelow : ∀ entry ∈ es, tree.find? (parts ++ [entry.1]) = some entry.2 := by
        intro entry hentry
        rw [FileTree.find?_append, hfind, Option.bind_some, FileTree.find?_folder_cons,
          hes.find?_eq_some_iff.2 hentry]
        simp
      have hsplit : modulesAmong (FileTree.foldersIn parts (.folder es)) =
          modulesAmong [(parts, es)] ++ modulesAmong (FileTree.foldersOf parts es) := by
        rw [FileTree.foldersIn, ← modulesAmong_append]
        rfl
      rw [modulesAt, hsplit, forall₂_append_left_iff, bind_eq_ok_iff]
      refine exists_congr fun own => ?_
      simp only [bind_eq_ok_iff, moduleOf_eq_ok_iff hfind hes,
        modulesBelow_eq_ok_iff_of_forall ih hbelow]
      simp [pure, Except.pure, eq_comm]

/-- The modules strictly below the root of a tree. -/
theorem modulesBelow_eq_ok_iff (hwell : tree.WellFormed) {path : String}
    {entries : List CatalogEntry} : modulesBelow path [] tree.entries = .ok entries ↔
      List.Forall₂ (IsEntry tree) (modulesAmong (FileTree.foldersOf [] tree.entries)) entries := by
  refine modulesBelow_eq_ok_iff_of_forall (fun entry _ => isWalked hwell entry.2) ?_
  intro entry hentry
  cases tree with
  | file contents | link target => exact absurd hentry List.not_mem_nil
  | folder es =>
      have hes := (FileTree.wellFormed_folder_iff.1 hwell).1
      rw [List.nil_append, FileTree.find?_folder_cons, hes.find?_eq_some_iff.2 hentry]
      simp

theorem mem_modulesAmong_iff (hwell : tree.WellFormed) {parts : List String} :
    parts ∈ modulesAmong (FileTree.foldersOf [] tree.entries) ↔ IsModule tree parts := by
  simp only [modulesAmong, List.mem_map, List.mem_filter, Prod.exists, exists_and_right,
    exists_eq_right]
  cases tree with
  | file contents | link target =>
      refine iff_of_false (fun ⟨es, hmem, _⟩ => absurd hmem List.not_mem_nil) fun h => ?_
      obtain ⟨es, hfind⟩ := FileTree.exists_entries_of_kindAt h.folder
      obtain ⟨name, rest, rfl⟩ := List.exists_cons_of_ne_nil h.ne_nil
      cases hfind
  | folder es =>
      constructor
      · rintro ⟨inner, hmem, hsome⟩
        obtain ⟨name, rest, hparts, hfind⟩ := (FileTree.mem_foldersOf_iff hwell).1 hmem
        obtain rfl : parts = name :: rest := hparts
        have hinner := (FileTree.wellFormed_folder_iff.1 (hwell.of_find? hfind)).1
        exact ⟨List.cons_ne_nil name rest, by rw [FileTree.kindAt, hfind]; rfl,
          (isSome_variablesFile?_iff hfind hinner).1 hsome⟩
      · intro h
        obtain ⟨inner, hfind⟩ := FileTree.exists_entries_of_kindAt h.folder
        obtain ⟨name, rest, rfl⟩ := List.exists_cons_of_ne_nil h.ne_nil
        have hinner := (FileTree.wellFormed_folder_iff.1 (hwell.of_find? hfind)).1
        exact ⟨inner, (FileTree.mem_foldersOf_iff hwell).2 ⟨name, rest, rfl, hfind⟩,
          (isSome_variablesFile?_iff hfind hinner).2 h.file⟩

theorem pairwise_modulesAmong (hwell : tree.WellFormed) :
    (modulesAmong (FileTree.foldersOf [] tree.entries)).Pairwise Path.Precedes := by
  cases tree with
  | file contents | link target => exact .nil
  | folder es =>
      have hall := FileTree.pairwise_foldersIn hwell []
      rw [FileTree.foldersIn, List.map_cons, List.pairwise_cons] at hall
      exact hall.2.sublist ((List.filter_sublist ..).map _)

/-- A catalog lists the modules of a tree if and only if it is what the walk comes to. -/
theorem lists_iff (hwell : tree.WellFormed) {path : String} {entries : List CatalogEntry} :
    modulesBelow path [] tree.entries = .ok entries ↔ ∃ modules, Lists tree modules entries := by
  have hpairwise := pairwise_modulesAmong hwell
  rw [modulesBelow_eq_ok_iff hwell]
  constructor
  · intro h
    exact ⟨_, hpairwise, fun parts => mem_modulesAmong_iff hwell, h⟩
  · rintro ⟨modules, hascending, hmem, hentries⟩
    have hnodup : ∀ {l : List (List String)}, l.Pairwise Path.Precedes → l.Nodup :=
      fun h => (h.imp Path.precedes_iff.1).imp ne_of_lt
    have hperm : modules.Perm (modulesAmong (FileTree.foldersOf [] tree.entries)) :=
      (List.perm_ext_iff_of_nodup (hnodup hascending) (hnodup hpairwise)).2 fun parts =>
        (hmem parts).trans (mem_modulesAmong_iff hwell).symm
    refine hperm.eq_of_pairwise (fun a b _ _ hab hba => ?_) hascending hpairwise ▸ hentries
    exact absurd (Path.precedes_iff.1 hab) (lt_asymm (Path.precedes_iff.1 hba))

end Walk

/-! ### Malformed files -/

/-- The trees are the same but for one file, the first one with variables in its directory, whose
text isn't well-formed in the second tree. -/
structure Spoils (tree spoiled : FileTree) (parts : List String) (file : String) : Prop where
  first : ∃ contents, IsFirstVariablesFile tree parts file contents
  malformed : ∃ contents text, spoiled.kindAt (parts ++ [file]) = some (.file contents) ∧
    String.fromUTF8? contents = some text ∧ Hcl.parse? text = none
  same : ∀ path, path ≠ parts ++ [file] → spoiled.kindAt path = tree.kindAt path

section Spoils

variable {tree spoiled : FileTree} {parts : List String} {file : String}

/-- A directory has the same files with variables, apart from the contents of one of them. -/
theorem Spoils.exists_isVariablesFile_iff (h : Spoils tree spoiled parts file)
    {other : List String} {name : String} :
    (∃ contents, IsVariablesFile spoiled other name contents) ↔
      ∃ contents, IsVariablesFile tree other name contents := by
  obtain ⟨contents, hfirst⟩ := h.first
  obtain ⟨contents', text, hmalformed, _⟩ := h.malformed
  by_cases hpath : other ++ [name] = parts ++ [file]
  · obtain ⟨rfl, hname⟩ := List.append_inj' hpath rfl
    obtain rfl := List.singleton_inj.1 hname
    exact ⟨fun _ => ⟨contents, hfirst.toIsVariablesFile⟩,
      fun _ => ⟨contents', hfirst.start, hmalformed⟩⟩
  · constructor
    · rintro ⟨contents, hstart, hfile⟩
      exact ⟨contents, hstart, h.same _ hpath ▸ hfile⟩
    · rintro ⟨contents, hstart, hfile⟩
      exact ⟨contents, hstart, (h.same _ hpath).symm ▸ hfile⟩

theorem Spoils.isModule_iff (h : Spoils tree spoiled parts file) {other : List String} :
    IsModule spoiled other ↔ IsModule tree other := by
  obtain ⟨contents, hfirst⟩ := h.first
  obtain ⟨contents', text, hmalformed, _⟩ := h.malformed
  have hfolder : spoiled.kindAt other = some .folder ↔ tree.kindAt other = some .folder := by
    by_cases hother : other = parts ++ [file]
    · rw [hother, hmalformed, hfirst.file]
      simp
    · rw [h.same other hother]
  have hfile : (∃ name contents, IsVariablesFile spoiled other name contents) ↔
      ∃ name contents, IsVariablesFile tree other name contents :=
    exists_congr fun name => h.exists_isVariablesFile_iff
  exact ⟨fun ⟨hne, hf, hv⟩ => ⟨hne, hfolder.1 hf, hfile.1 hv⟩,
    fun ⟨hne, hf, hv⟩ => ⟨hne, hfolder.2 hf, hfile.2 hv⟩⟩

theorem Spoils.isEntry_of_ne (h : Spoils tree spoiled parts file) {other : List String}
    (hne : other ≠ parts) {entry : CatalogEntry} (hentry : IsEntry tree other entry) :
    IsEntry spoiled other entry := by
  have hsame : ∀ name contents, IsVariablesFile spoiled other name contents ↔
      IsVariablesFile tree other name contents := by
    intro name contents
    have hpath : other ++ [name] ≠ parts ++ [file] :=
      fun heq => hne (List.append_inj' heq rfl).1
    exact ⟨fun ⟨hstart, hfile⟩ => ⟨hstart, h.same _ hpath ▸ hfile⟩,
      fun ⟨hstart, hfile⟩ => ⟨hstart, (h.same _ hpath).symm ▸ hfile⟩⟩
  obtain ⟨hname, name, contents, text, hfirst, hinputs⟩ := hentry
  exact ⟨hname, name, contents, text, ⟨(hsame _ _).2 hfirst.toIsVariablesFile,
    fun other contents' hother => hfirst.first other contents' ((hsame _ _).1 hother)⟩, hinputs⟩

/-- The module of the file itself is listed without inputs. -/
theorem Spoils.isEntry_self (h : Spoils tree spoiled parts file) :
    IsEntry spoiled parts ⟨Path.unsplit parts, []⟩ := by
  obtain ⟨contents, hfirst⟩ := h.first
  obtain ⟨contents', text, hfile, htext, hparse⟩ := h.malformed
  refine ⟨rfl, file, contents', text, ⟨⟨hfirst.start, hfile⟩, fun other _ hother hne => ?_⟩, htext,
    .malformed hparse⟩
  obtain ⟨contents'', hother⟩ := h.exists_isVariablesFile_iff.1 ⟨_, hother⟩
  exact hfirst.first other contents'' hother hne

/-- The entries of all other modules are what they were. -/
theorem Spoils.lists (h : Spoils tree spoiled parts file) {modules : List (List String)}
    {entries : List CatalogEntry} (hlists : Lists tree modules entries) :
    Lists spoiled modules ((modules.zip entries).map fun (place, entry) =>
      if place = parts then { entry with inputs := [] } else entry) := by
  refine ⟨hlists.ascending, fun place => (hlists.mem_iff place).trans h.isModule_iff.symm, ?_⟩
  have hentries := hlists.entries
  clear hlists
  induction hentries with
  | nil => exact .nil
  | @cons place entry modules entries hentry _ ih =>
      refine .cons ?_ ih
      change IsEntry spoiled place (if place = parts then { entry with inputs := [] } else entry)
      by_cases hplace : place = parts
      · subst hplace
        rw [if_pos rfl, hentry.name]
        exact h.isEntry_self
      · rw [if_neg hplace]
        exact h.isEntry_of_ne hplace hentry

end Spoils

/-! ### Catalogs of directories -/

theorem ofDirectory_eq_ok_iff {fs : FileSystem} {root : String} (hwell : fs.root.WellFormed)
    {entries : List CatalogEntry} : ofDirectory fs root = .ok entries ↔
      ∃ tree modules, fs.node root = .ok tree ∧ Lists tree modules entries := by
  rw [ofDirectory]
  cases hnode : fs.node root with
  | error e => simp
  | ok tree =>
      obtain ⟨names, hfind⟩ := FileSystem.exists_find?_of_node hnode
      simp [lists_iff (hwell.of_find? hfind)]

/-- A catalog is made of a tree if and only if it lists, in pre-order, the directories below the
root that have a file with variables in them, each with the inputs that the first of these files
declares.  Where such a file isn't well-formed any more, the module loses its inputs, and everything
else in the catalog is what it was. -/
theorem ofDirectory_listsModules {fs : FileSystem} {root : String} (hwell : fs.root.WellFormed) :
    (∀ entries, ofDirectory fs root = .ok entries ↔
      ∃ tree modules, fs.node root = .ok tree ∧ Lists tree modules entries) ∧
    ∀ tree spoiled modules entries parts file, fs.node root = .ok spoiled →
      Spoils tree spoiled parts file → Lists tree modules entries →
        ofDirectory fs root = .ok ((modules.zip entries).map fun (place, entry) =>
          if place = parts then { entry with inputs := [] } else entry) := by
  refine ⟨fun entries => ofDirectory_eq_ok_iff hwell, ?_⟩
  intro tree spoiled modules entries parts file hnode hspoils hlists
  exact (ofDirectory_eq_ok_iff hwell).2 ⟨spoiled, modules, hnode, hspoils.lists hlists⟩

namespace OneSpoiled

/-- A checkout of modules where the variables of one of them are missing. -/
def base : FileTree := .folder [
  ("docs", .folder [("README.md", .file ByteArray.empty)]),
  ("network", .folder [
    ("variables.tf", .file ByteArray.empty),
    ("vpc", .folder [("main.tf", .file ByteArray.empty)])])]

/-- The checkout with a text for these variables. -/
def holding (text : String) : FileSystem :=
  ⟨.insert (.file text.toUTF8) ["network", "vpc", "variables.tf"] base, []⟩

def declared : String :=
  "variable \"zones\" \x7b default = [1] \x7d\nvariable \"cidr\" \x7b\x7d\n"

def cutOff : String :=
  "variable \x7b"

/-- What the catalog lists before the text is cut off. -/
def listed : List CatalogEntry := [
  ⟨"network", []⟩,
  ⟨"network/vpc", [⟨"zones", some "[1]", none, false⟩, ⟨"cidr", none, none, true⟩]⟩]

theorem wellFormed_holding (text : String) : (holding text).root.WellFormed := by
  have hfile : (FileTree.file text.toUTF8).WellFormed := trivial
  refine hfile.insert ?_ _
  simp only [base, FileTree.WellFormed, FileTree.AllWellFormed, Entries.Ascending, and_true,
    true_and]
  decide

theorem kindAt_holding (text : String) (path : List String) : (holding text).root.kindAt path =
    if path = ["network", "vpc", "variables.tf"] then some (.file text.toUTF8)
    else base.kindAt path :=
  @FileTree.kindAt_insert base _ ["network", "vpc"] _ (FileTree.isLeaf_file _) rfl rfl path

theorem spoils_cutOff : Spoils (holding declared).root (holding cutOff).root ["network", "vpc"]
    "variables.tf" where
  first := by
    have hfind : (holding declared).root.find? ["network", "vpc"] =
        some (.folder [("main.tf", .file ByteArray.empty),
          ("variables.tf", .file declared.toUTF8)]) := rfl
    have hwell := (wellFormed_holding declared).of_find? hfind
    exact ⟨declared.toUTF8,
      isFirst_of_variablesFile? hfind (FileTree.wellFormed_folder_iff.1 hwell).1 rfl⟩
  malformed :=
    ⟨cutOff.toUTF8, cutOff, kindAt_holding _ _, fromUTF8?_toUTF8 cutOff, by decide +kernel⟩
  same path hpath := by
    rw [List.cons_append, List.singleton_append] at hpath
    rw [kindAt_holding, kindAt_holding, if_neg hpath, if_neg hpath]

theorem ofDirectory_declared : ofDirectory (holding declared) "/" = .ok listed := by
  have hread : (ofDirectory (holding declared) "/").toOption = some listed := by
    decide +kernel
  cases hentries : ofDirectory (holding declared) "/" with
  | error e => rw [hentries] at hread; cases hread
  | ok entries => rw [hentries] at hread; exact congrArg Except.ok (Option.some.inj hread)

/-- The module stays in the catalog, without its inputs. -/
theorem listsModules_cutOff : (holding declared).root.WellFormed ∧
    (holding cutOff).root.WellFormed ∧
    Spoils (holding declared).root (holding cutOff).root ["network", "vpc"] "variables.tf" ∧
    ∃ modules, Lists (holding declared).root modules listed ∧
      ofDirectory (holding cutOff) "/" = .ok ((modules.zip listed).map fun (place, entry) =>
        if place = ["network", "vpc"] then { entry with inputs := [] } else entry) := by
  obtain ⟨hlists, _⟩ := @ofDirectory_listsModules _ "/" (wellFormed_holding declared)
  obtain ⟨_, hspoils⟩ := @ofDirectory_listsModules _ "/" (wellFormed_holding cutOff)
  obtain ⟨tree, modules, hnode, hmodules⟩ := (hlists listed).1 ofDirectory_declared
  obtain rfl : (holding declared).root = tree := Except.ok.inj hnode
  exact ⟨wellFormed_holding declared, wellFormed_holding cutOff, spoils_cutOff, modules, hmodules,
    hspoils _ _ _ _ _ _ rfl spoils_cutOff hmodules⟩

end OneSpoiled

end Catalog

end InfraGraph
