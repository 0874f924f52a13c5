import InfraGraph.Proofs.Config.Declarations

/-!
# The parts of a body that count

Of a body only its inputs and three types of blocks are looked at.  Blocks are gone through once and
fill the source, the variables and the dependencies side by side, and none of the three depends on
the others: for sources the first one stays, for variables the last definition of a name, and for
dependencies the first block of a name.  So a file declares what can be said about each of them
without following the order in which they are read.
-/

namespace InfraGraph.ParsedConfig

/-! ### What a body says -/

/-- The values that a body gives for its inputs. -/
def inputValues (body : Hcl.Body) : List Hcl.Expression :=
  (body.attributes.filter fun entry => entry.1 = "inputs").map (·.2)

/-- The items of an object, with their values written on one line. -/
def itemEntries : Hcl.Expression → List (String × String)
  | .object items => items.map fun item => (keyText item.1, item.2.text)
  | _ => []

/-- The definitions at the top of a block, with their values written on one line. -/
def attributeEntries (block : Hcl.Block) : List (String × String) :=
  block.body.attributes.map fun entry => (entry.1, entry.2.text)

/-- The blocks of a type. -/
def ofType (type : String) (blocks : List Hcl.Block) : List Hcl.Block :=
  blocks.filter fun block => block.type = type

/-- The first of the blocks that has a name as its first label. -/
def firstNamed? (name : String) (blocks : List Hcl.Block) : Option Hcl.Block :=
  blocks.find? fun block => block.labels.head? = some name

/-- The directory that the first block of a name gives. -/
def directory? (name : String) (blocks : List Hcl.Block) : Option String :=
  ((firstNamed? name blocks).bind (·.attribute? "config_path")).map directoryText

/-- The names of blocks in the order in which they are first used. -/
def names (blocks : List Hcl.Block) : List String :=
  (blocks.filterMap (·.labels.head?)).eraseDups

/-- What keeps a body from being used: inputs that aren't an object, a dependency without a name,
or a name whose first dependency has no directory. -/
inductive IsIncomplete (body : Hcl.Body) : Prop where
  | inputs (value : Hcl.Expression) (hvalue : value ∈ inputValues body)
      (hobject : ∀ items, value ≠ .object items)
  | unnamed (block : Hcl.Block) (hblock : block ∈ ofType "dependency" body.blocks)
      (hlabels : block.labels = [])
  | unplaced (name : String) (block : Hcl.Block)
      (hblock : firstNamed? name (ofType "dependency" body.blocks) = some block)
      (hpath : block.attribute? "config_path" = none)

/-- A list has what blocks say about dependencies: each name once, in the order of the first
blocks, and with the directory that the first block gives. -/
structure Lists (blocks : List Hcl.Block) (dependencies : List (String × String)) : Prop where
  names_eq : dependencies.map (·.1) = names blocks
  directory_eq : ∀ d ∈ dependencies, directory? d.1 blocks = some d.2

/-- A map has the entries of a list, of which the last one with a key counts. -/
def KeepsLast (entries : List (String × String)) (m : SortedMap String) : Prop :=
  ∀ key value, m.find? key = some value ↔
    ∃ front back, entries = front ++ (key, value) :: back ∧ key ∉ back.map (·.1)

/-- A configuration has the declarations of a body, and nothing else. -/
structure Declares (body : Hcl.Body) (config : ParsedConfig) : Prop where
  source : ∀ source, config.source = some source ↔
    ∃ front block back, ofType "terraform" body.blocks = front ++ block :: back ∧
      block.attribute? "source" = some (.string source) ∧
      ∀ other ∈ front, ∀ s, other.attribute? "source" ≠ some (.string s)
  locals : KeepsLast ((ofType "locals" body.blocks).flatMap attributeEntries) config.locals
  inputs : KeepsLast ((inputValues body).flatMap itemEntries) config.inputs
  nodup : (config.dependencies.map (·.1)).Nodup
  dependencies : Lists (ofType "dependency" body.blocks) config.dependencies

/-! ### Attributes -/

theorem foldlM_addInputs_eq_ok_iff {attributes : List (String × Hcl.Expression)}
    {inputs result : SortedMap String} :
    attributes.foldlM addInputs inputs = .ok result ↔
      (∀ value ∈ (attributes.filter fun entry => entry.1 = "inputs").map (·.2),
        ∃ items, value = .object items) ∧
      result = inputs.insertAll
        (((attributes.filter fun entry => entry.1 = "inputs").map (·.2)).flatMap itemEntries) := by
  induction attributes generalizing inputs with
  | nil =>
      simp only [List.foldlM_nil, pure, Except.pure, Except.ok.injEq]
      exact ⟨fun h => ⟨by simp, h.symm⟩, fun h => h.2.symm⟩
  | cons entry attributes ih =>
      obtain ⟨key, value⟩ := entry
      rw [List.foldlM_cons, bind_eq_ok_iff]
      by_cases hkey : key = "inputs"
      · subst hkey
        cases value with
        | object items =>
            have hstep : addInputs inputs ("inputs", .object items) =
                .ok (inputs.insertAll (itemEntries (.object items))) := by
              simp [addInputs, addItems, SortedMap.insertAll, itemEntries, List.foldl_map]
            simp [hstep, ih, SortedMap.insertAll_append]
        | _ => simp [addInputs]
      · simp [addInputs, hkey, ih]

/-! ### Blocks -/

theorem addBlock_of_locals {block : Hcl.Block} (h : block.type = "locals")
    (config : ParsedConfig) :
    addBlock config block =
      .ok { config with locals := config.locals.insertAll (attributeEntries block) } := by
  simp [addBlock, h, addLocals, SortedMap.insertAll, attributeEntries, List.foldl_map]

theorem addBlock_of_terraform {block : Hcl.Block} (h : block.type = "terraform")
    (config : ParsedConfig) :
    addBlock config block =
      .ok { config with source := config.source.or (stringAttribute? block "source") } := by
  obtain ⟨_ | source, locals, inputs, dependencies⟩ := config <;> simp [addBlock, h]

theorem addBlock_of_dependency {block : Hcl.Block} (h : block.type = "dependency")
    (config : ParsedConfig) :
    addBlock config block =
      (addDependency config.dependencies block).map fun dependencies =>
        { config with dependencies } := by
  simp [addBlock, h]

theorem addBlock_of_other {block : Hcl.Block}
    (h : block.type ∉ ["locals", "terraform", "dependency"]) (config : ParsedConfig) :
    addBlock config block = .ok config := by
  simp only [List.mem_cons, List.not_mem_nil, or_false, not_or] at h
  simp [addBlock, h]

/-- Blocks fill the parts of a configuration side by side.  Only dependencies can fail. -/
theorem foldlM_addBlock (config : ParsedConfig) (blocks : List Hcl.Block) :
    blocks.foldlM addBlock config =
      ((ofType "dependency" blocks).foldlM addDependency config.dependencies).map
        fun dependencies =>
          { source := config.source.or
              ((ofType "terraform" blocks).findSome? fun block => stringAttribute? block "source")
            locals := config.locals.insertAll ((ofType "locals" blocks).flatMap attributeEntries)
            inputs := config.inputs
            dependencies } := by
  induction blocks generalizing config with
  | nil => simp [ofType, SortedMap.insertAll, Except.map, pure, Except.pure]
  | cons block blocks ih =>
      rw [List.foldlM_cons]
      by_cases hlocals : block.type = "locals"
      · rw [addBlock_of_locals hlocals]
        simp [bind, Except.bind, ih, ofType, hlocals, SortedMap.insertAll_append]
      by_cases hterraform : block.type = "terraform"
      · rw [addBlock_of_terraform hterraform]
        cases hsource : stringAttribute? block "source" <;>
          simp [bind, Except.bind, ih, ofType, hterraform, hsource]
      by_cases hdependency : block.type = "dependency"
      · rw [addBlock_of_dependency hdependency]
        cases hadd : addDependency config.dependencies block <;>
          simp [bind, Except.bind, Except.map, ih, ofType, hdependency, hadd]
      · rw [addBlock_of_other (by simp [hlocals, hterraform, hdependency])]
        simp [bind, Except.bind, ih, ofType, hlocals, hterraform, hdependency]

/-! ### Dependencies -/

theorem addDependency_eq_ok_iff {dependencies result : List (String × String)}
    {block : Hcl.Block} :
    addDependency dependencies block = .ok result ↔
      ∃ name, block.labels.head? = some name ∧
        (name ∈ dependencies.map (·.1) ∧ result = dependencies ∨
          name ∉ dependencies.map (·.1) ∧ ∃ value, block.attribute? "config_path" = some value ∧
            result = dependencies ++ [(name, directoryText value)]) := by
  unfold addDependency
  cases hlabels : block.labels with
  | nil => simp
  | cons name labels =>
      have htaken : (dependencies.any fun d => d.1 = name) = true ↔
          name ∈ dependencies.map (·.1) := by
        simp
      simp only [htaken, List.head?_cons, Option.some.injEq, exists_eq_left']
      by_cases hmem : name ∈ dependencies.map (·.1)
      · simp only [hmem, if_true, not_true, true_and, false_and, or_false, Except.ok.injEq, eq_comm]
      · cases hpath : block.attribute? "config_path" <;>
          simp only [hmem, if_false, not_false_iff, true_and, false_and, false_or, Except.ok.injEq,
            reduceCtorEq, exists_false, Option.some.injEq, exists_eq_left', eq_comm]

theorem directory?_eq_some_iff {name path : String} {blocks : List Hcl.Block} :
    directory? name blocks = some path ↔
      ∃ block value, firstNamed? name blocks = some block ∧
        block.attribute? "config_path" = some value ∧ directoryText value = path := by
  simp [directory?, Option.bind_eq_some_iff]

theorem mem_names_iff {name : String} {blocks : List Hcl.Block} :
    name ∈ names blocks ↔ ∃ block, firstNamed? name blocks = some block := by
  rw [names, List.mem_eraseDups, List.mem_filterMap, ← Option.isSome_iff_exists, firstNamed?,
    List.find?_isSome]
  simp

theorem firstNamed?_concat {name : String} {blocks : List Hcl.Block} {block first : Hcl.Block} :
    firstNamed? name (blocks ++ [block]) = some first ↔
      firstNamed? name blocks = some first ∨
        name ∉ names blocks ∧ block.labels.head? = some name ∧ block = first := by
  have hnone : name ∉ names blocks ↔ firstNamed? name blocks = none := by
    rw [mem_names_iff, ← Option.isSome_iff_exists, Option.not_isSome_iff_eq_none]
  rw [hnone, firstNamed?, List.find?_append, Option.or_eq_some_iff, List.find?_singleton]
  simp [firstNamed?]

theorem names_concat {block : Hcl.Block} {name : String} (h : block.labels.head? = some name)
    (blocks : List Hcl.Block) :
    names (blocks ++ [block]) = if name ∈ names blocks then names blocks
      else names blocks ++ [name] := by
  simp only [names, List.filterMap_append, List.filterMap_cons, h, List.filterMap_nil,
    List.mem_eraseDups]
  generalize blocks.filterMap (·.labels.head?) = taken
  rw [List.eraseDups_append]
  by_cases hname : name ∈ taken <;> simp [List.removeAll, List.eraseDups_cons, hname]

/-- One block more makes the list of what all blocks up to it say. -/
theorem Lists.concat {blocks : List Hcl.Block} {dependencies result : List (String × String)}
    {block : Hcl.Block} (hlists : Lists blocks dependencies)
    (h : addDependency dependencies block = .ok result) : Lists (blocks ++ [block]) result := by
  obtain ⟨name, hname, hcase⟩ := addDependency_eq_ok_iff.1 h
  have hkept : ∀ d ∈ dependencies, directory? d.1 (blocks ++ [block]) = some d.2 := by
    intro d hd
    obtain ⟨first, value, hfirst, hvalue, hpath⟩ :=
      directory?_eq_some_iff.1 (hlists.directory_eq d hd)
    exact directory?_eq_some_iff.2 ⟨first, value, firstNamed?_concat.2 (.inl hfirst), hvalue, hpath⟩
  rw [hlists.names_eq] at hcase
  rcases hcase with ⟨htaken, rfl⟩ | ⟨hnew, value, hvalue, rfl⟩
  · refine ⟨?_, hkept⟩
    rw [names_concat hname, if_pos htaken, hlists.names_eq]
  · refine ⟨?_, fun d hd => ?_⟩
    · rw [names_concat hname, if_neg hnew, List.map_append, hlists.names_eq]
      rfl
    · rcases List.mem_append.1 hd with hd | hd
      · exact hkept d hd
      · obtain rfl := List.mem_singleton.1 hd
        exact directory?_eq_some_iff.2
          ⟨block, value, firstNamed?_concat.2 (.inr ⟨hnew, hname, rfl⟩), hvalue, rfl⟩

theorem lists_of_foldlM_addDependency {blocks : List Hcl.Block}
    {dependencies : List (String × String)}
    (h : blocks.foldlM addDependency [] = .ok dependencies) : Lists blocks dependencies := by
  induction blocks using List.reverseRecOn generalizing dependencies with
  | nil =>
      obtain rfl := Except.ok.inj h
      exact ⟨rfl, by simp⟩
  | append_singleton blocks block ih =>
      obtain ⟨before, hbefore, hstep⟩ := foldlM_concat_eq_ok_iff.1 h
      exact (ih hbefore).concat hstep

/-- There is only one list of what blocks say. -/
theorem Lists.unique {blocks : List Hcl.Block} {dependencies other : List (String × String)}
    (h : Lists blocks dependencies) (hother : Lists blocks other) : dependencies = other := by
  have hmap : ∀ {l}, Lists blocks l →
      l.map (fun d => (d.1, some d.2)) = (names blocks).map fun name =>
        (name, directory? name blocks) := by
    intro l hl
    rw [← hl.names_eq, List.map_map]
    exact List.map_congr_left fun d hd => by rw [Function.comp_apply, hl.directory_eq d hd]
  have hinjective : Function.Injective fun d : String × String => (d.1, some d.2) := by
    rintro ⟨name, path⟩ ⟨name', path'⟩ heq
    simpa using heq
  exact List.map_injective_iff.2 hinjective ((hmap h).trans (hmap hother).symm)

/-- Blocks are gone through without a failure when each has a name and the first of each name a
directory. -/
theorem exists_foldlM_addDependency_iff {blocks : List Hcl.Block} :
    (∃ dependencies, blocks.foldlM addDependency [] = .ok dependencies) ↔
      (∀ block ∈ blocks, block.labels ≠ []) ∧
        ∀ name block, firstNamed? name blocks = some block →
          block.attribute? "config_path" ≠ none := by
  induction blocks using List.reverseRecOn with
  | nil => simp [firstNamed?, pure, Except.pure]
  | append_singleton blocks block ih =>
      constructor
      · rintro ⟨dependencies, h⟩
        obtain ⟨before, hbefore, hstep⟩ := foldlM_concat_eq_ok_iff.1 h
        obtain ⟨hlabels, hpaths⟩ := ih.1 ⟨before, hbefore⟩
        obtain ⟨own, hown, hcase⟩ := addDependency_eq_ok_iff.1 hstep
        rw [(lists_of_foldlM_addDependency hbefore).names_eq] at hcase
        refine ⟨fun b hb => ?_, fun name b hb => ?_⟩
        · rcases List.mem_append.1 hb with hb | hb
          · exact hlabels b hb
          · rintro hempty
            rw [← List.mem_singleton.1 hb, hempty] at hown
            cases hown
        · rcases firstNamed?_concat.1 hb with hb | ⟨hnew, hname, rfl⟩
          · exact hpaths name b hb
          · obtain rfl := Option.some.inj (hown.symm.trans hname)
            obtain ⟨htaken, -⟩ | ⟨-, value, hvalue, -⟩ := hcase
            · exact absurd htaken hnew
            · exact hvalue ▸ Option.some_ne_none value
      · rintro ⟨hlabels, hpaths⟩
        obtain ⟨before, hbefore⟩ := ih.2 ⟨fun b hb => hlabels b (List.mem_append_left _ hb),
          fun name b hb => hpaths name b (firstNamed?_concat.2 (.inl hb))⟩
        have hnames := (lists_of_foldlM_addDependency hbefore).names_eq
        obtain ⟨own, hown⟩ : ∃ own, block.labels.head? = some own :=
          Option.isSome_iff_exists.1 (List.isSome_head?.2 (hlabels block (by simp)))
        suffices h : ∃ result, addDependency before block = .ok result by
          obtain ⟨result, hresult⟩ := h
          exact ⟨result, foldlM_concat_eq_ok_iff.2 ⟨before, hbefore, hresult⟩⟩
        by_cases htaken : own ∈ names blocks
        · exact ⟨before, addDependency_eq_ok_iff.2 ⟨own, hown, .inl ⟨hnames ▸ htaken, rfl⟩⟩⟩
        · obtain ⟨value, hvalue⟩ := Option.ne_none_iff_exists'.1
            (hpaths own block (firstNamed?_concat.2 (.inr ⟨htaken, hown, rfl⟩)))
          exact ⟨_, addDependency_eq_ok_iff.2
            ⟨own, hown, .inr ⟨hnames ▸ htaken, value, hvalue, rfl⟩⟩⟩

theorem foldlM_addDependency_eq_ok_iff {blocks : List Hcl.Block}
    {dependencies : List (String × String)} :
    blocks.foldlM addDependency [] = .ok dependencies ↔
      ((∀ block ∈ blocks, block.labels ≠ []) ∧
        ∀ name block, firstNamed? name blocks = some block →
          block.attribute? "config_path" ≠ none) ∧ Lists blocks dependencies := by
  rw [← exists_foldlM_addDependency_iff]
  constructor
  · exact fun h => ⟨⟨dependencies, h⟩, lists_of_foldlM_addDependency h⟩
  · rintro ⟨⟨result, hresult⟩, hlists⟩
    rwa [hlists.unique (lists_of_foldlM_addDependency hresult)]

/-! ### Bodies -/

theorem keepsLast_iff {entries : List (String × String)} {m : SortedMap String} :
    KeepsLast entries m ↔ m = SortedMap.ofList entries := by
  constructor
  · intro h
    refine SortedMap.ext_find? fun key => Option.ext fun value => ?_
    rw [h key value, SortedMap.find?_ofList_eq_some_iff]
  · rintro rfl key value
    exact SortedMap.find?_ofList_eq_some_iff

theorem stringAttribute?_eq_some_iff {block : Hcl.Block} {key s : String} :
    stringAttribute? block key = some s ↔ block.attribute? key = some (.string s) := by
  unfold stringAttribute?
  split <;> simp_all

theorem isIncomplete_iff {body : Hcl.Body} :
    IsIncomplete body ↔
      ¬ ((∀ value ∈ inputValues body, ∃ items, value = .object items) ∧
        (∀ block ∈ ofType "dependency" body.blocks, block.labels ≠ []) ∧
        ∀ name block, firstNamed? name (ofType "dependency" body.blocks) = some block →
          block.attribute? "config_path" ≠ none) := by
  constructor
  · rintro (⟨value, hvalue, hobject⟩ | ⟨block, hblock, hlabels⟩ | ⟨name, block, hblock, hpath⟩)
      ⟨hobjects, hnamed, hplaced⟩
    · obtain ⟨items, hitems⟩ := hobjects value hvalue
      exact hobject items hitems
    · exact hnamed block hblock hlabels
    · exact hplaced name block hblock hpath
  · intro h
    by_contra hcomplete
    refine h ⟨fun value hvalue => ?_, fun block hblock hlabels => ?_,
      fun name block hblock hpath => ?_⟩
    · by_contra hobject
      exact hcomplete (.inputs value hvalue fun items hitems => hobject ⟨items, hitems⟩)
    · exact hcomplete (.unnamed block hblock hlabels)
    · exact hcomplete (.unplaced name block hblock hpath)

theorem findSome?_source_eq_some_iff {blocks : List Hcl.Block} {source : String} :
    (blocks.findSome? fun block => stringAttribute? block "source") = some source ↔
      ∃ front block back, blocks = front ++ block :: back ∧
        block.attribute? "source" = some (.string source) ∧
        ∀ other ∈ front, ∀ s, other.attribute? "source" ≠ some (.string s) := by
  simp only [List.findSome?_eq_some_iff, stringAttribute?_eq_some_iff,
    Option.eq_none_iff_forall_ne_some, ne_eq]

/-- What a body declares leaves no choice. -/
theorem Declares.unique {body : Hcl.Body} {config other : ParsedConfig}
    (h : Declares body config) (hother : Declares body other) : config = other := by
  obtain ⟨source, locals, inputs, dependencies⟩ := config
  obtain ⟨source', locals', inputs', dependencies'⟩ := other
  obtain rfl : source = source' :=
    Option.ext fun s => (h.source s).trans (hother.source s).symm
  obtain rfl : locals = locals' :=
    (keepsLast_iff.1 h.locals).trans (keepsLast_iff.1 hother.locals).symm
  obtain rfl : inputs = inputs' :=
    (keepsLast_iff.1 h.inputs).trans (keepsLast_iff.1 hother.inputs).symm
  obtain rfl : dependencies = dependencies' := h.dependencies.unique hother.dependencies
  rfl

theorem ofBody_eq (body : Hcl.Body) :
    ofBody body = body.attributes.foldlM addInputs .empty >>= fun inputs =>
      ((ofType "dependency" body.blocks).foldlM addDependency []).map fun dependencies =>
        { source := (ofType "terraform" body.blocks).findSome? fun block =>
            stringAttribute? block "source"
          locals := .ofList ((ofType "locals" body.blocks).flatMap attributeEntries)
          inputs
          dependencies } := by
  unfold ofBody
  simp only [foldlM_addBlock, Option.none_or]
  rfl

theorem declares_of_ofBody {body : Hcl.Body} {config : ParsedConfig}
    (h : ofBody body = .ok config) : Declares body config := by
  rw [ofBody_eq, bind_eq_ok_iff] at h
  obtain ⟨inputs, hinputs, h⟩ := h
  obtain ⟨-, rfl⟩ := foldlM_addInputs_eq_ok_iff.1 hinputs
  obtain ⟨dependencies, hdependencies, rfl⟩ := map_eq_ok_iff.1 h
  exact
    { source := fun _ => findSome?_source_eq_some_iff
      locals := keepsLast_iff.2 rfl
      inputs := keepsLast_iff.2 rfl
      nodup := foldlM_invariant (P := fun dependencies => (dependencies.map (·.1)).Nodup)
        (fun _ _ _ => nodup_addDependency) List.nodup_nil hdependencies
      dependencies := (foldlM_addDependency_eq_ok_iff.1 hdependencies).2 }

theorem exists_ofBody_eq_ok_iff {body : Hcl.Body} :
    (∃ config, ofBody body = .ok config) ↔ ¬ IsIncomplete body := by
  rw [isIncomplete_iff, not_not, ofBody_eq, ← exists_foldlM_addDependency_iff]
  constructor
  · rintro ⟨config, h⟩
    obtain ⟨inputs, hinputs, h⟩ := bind_eq_ok_iff.1 h
    obtain ⟨dependencies, hdependencies, -⟩ := map_eq_ok_iff.1 h
    exact ⟨(foldlM_addInputs_eq_ok_iff.1 hinputs).1, dependencies, hdependencies⟩
  · rintro ⟨hobjects, dependencies, hdependencies⟩
    exact ⟨_, bind_eq_ok_iff.2 ⟨_, foldlM_addInputs_eq_ok_iff.2 ⟨hobjects, rfl⟩,
      map_eq_ok_iff.2 ⟨dependencies, hdependencies, rfl⟩⟩⟩

theorem ofBody_eq_ok_iff {body : Hcl.Body} {config : ParsedConfig} :
    ofBody body = .ok config ↔ ¬ IsIncomplete body ∧ Declares body config := by
  rw [← exists_ofBody_eq_ok_iff]
  constructor
  · exact fun h => ⟨⟨config, h⟩, declares_of_ofBody h⟩
  · rintro ⟨⟨result, hresult⟩, hdeclares⟩
    rwa [hdeclares.unique (declares_of_ofBody hresult)]

/-! ### What doesn't count -/

/-- The attributes of a body that are chosen by their keys. -/
def attributesOf (p : String → Bool) (body : Hcl.Body) : Hcl.Body :=
  body.filter fun
    | .attribute key _ => p key
    | .block _ _ _ => false

/-- What is read of a block, if anything is. -/
def readBlock? (block : Hcl.Block) : Option Hcl.Block :=
  if block.type = "locals" then
    some ⟨block.type, [], attributesOf (fun _ => true) block.body⟩
  else if block.type = "terraform" then
    some ⟨block.type, [], attributesOf (· = "source") block.body⟩
  else if block.type = "dependency" then
    some ⟨block.type, block.labels.take 1, attributesOf (· = "config_path") block.body⟩
  else none

/-- What is read of a part of a body, if anything is. -/
def readPart? : Hcl.Structure → Option Hcl.Structure
  | .attribute key value => if key = "inputs" then some (.attribute key value) else none
  | .block type labels inner =>
    (readBlock? ⟨type, labels, inner⟩).map fun block => .block block.type block.labels block.body

theorem attributes_attributesOf (p : String → Bool) (body : Hcl.Body) :
    (attributesOf p body).attributes = body.attributes.filter fun entry => p entry.1 := by
  induction body with
  | nil => rfl
  | cons part body ih =>
      unfold attributesOf Hcl.Body.attributes at *
      obtain ⟨key, value⟩ | ⟨type, labels, inner⟩ := part
      · cases hkey : p key <;> simp [hkey, ih]
      · simp [ih]

theorem attribute?_attributesOf {block other : Hcl.Block} {key : String}
    (h : other.body = attributesOf (· = key) block.body) :
    other.attribute? key = block.attribute? key := by
  simp [Hcl.Block.attribute?, h, attributes_attributesOf, List.find?_filter]

theorem addBlock_readBlock? (config : ParsedConfig) (block : Hcl.Block) :
    (readBlock? block).elim (.ok config) (addBlock config) = addBlock config block := by
  unfold readBlock?
  split_ifs with hlocals hterraform hdependency
  · rw [Option.elim_some, addBlock_of_locals (by exact hlocals), addBlock_of_locals hlocals]
    simp [attributeEntries, attributes_attributesOf]
  · rw [Option.elim_some, addBlock_of_terraform (by exact hterraform),
      addBlock_of_terraform hterraform, stringAttribute?, attribute?_attributesOf rfl,
      stringAttribute?]
  · rw [Option.elim_some, addBlock_of_dependency (by exact hdependency),
      addBlock_of_dependency hdependency, addDependency, attribute?_attributesOf rfl, addDependency]
    cases block.labels <;> rfl
  · rw [addBlock_of_other (by simp [hlocals, hterraform, hdependency])]
    rfl

theorem attributes_filterMap_readPart? (body : Hcl.Body) :
    Hcl.Body.attributes (body.filterMap readPart?) =
      body.attributes.filter fun entry => entry.1 = "inputs" := by
  unfold Hcl.Body.attributes
  rw [List.filterMap_filterMap, List.filter_filterMap]
  refine List.filterMap_congr fun part _ => ?_
  obtain ⟨key, value⟩ | ⟨type, labels, inner⟩ := part
  · by_cases hkey : key = "inputs" <;> simp [readPart?, hkey, Option.filter]
  · cases hread : readBlock? ⟨type, labels, inner⟩ <;> simp [readPart?, hread]

theorem blocks_filterMap_readPart? (body : Hcl.Body) :
    Hcl.Body.blocks (body.filterMap readPart?) = body.blocks.filterMap readBlock? := by
  unfold Hcl.Body.blocks
  rw [List.filterMap_filterMap, List.filterMap_filterMap]
  refine List.filterMap_congr fun part _ => ?_
  obtain ⟨key, value⟩ | ⟨type, labels, inner⟩ := part
  · by_cases hkey : key = "inputs" <;> simp [readPart?, hkey]
  · cases hread : readBlock? ⟨type, labels, inner⟩ <;> simp [readPart?, hread]

/-- Nothing else in a body has an effect. -/
theorem ofBody_filterMap_readPart? (body : Hcl.Body) :
    ofBody (body.filterMap readPart?) = ofBody body := by
  have hattributes : (body.attributes.filter fun entry => entry.1 = "inputs").foldlM addInputs
      .empty = body.attributes.foldlM addInputs .empty := by
    rw [List.foldlM_filter]
    congr 1
    funext inputs entry
    by_cases hkey : entry.1 = "inputs" <;> simp [hkey, addInputs, pure, Except.pure]
  have hblocks : ∀ config, (body.blocks.filterMap readBlock?).foldlM addBlock config =
      body.blocks.foldlM addBlock config := by
    intro config
    rw [List.foldlM_filterMap]
    congr 1
    funext config block
    rw [← addBlock_readBlock?]
    cases readBlock? block <;> rfl
  unfold ofBody
  rw [attributes_filterMap_readPart?, blocks_filterMap_readPart?, hattributes]
  simp only [hblocks]

/-- A body is refused exactly if it is incomplete, and otherwise gives exactly what it declares.
Keys of objects are names or expressions, and both have a text. -/
theorem ofBody_declares_exactly (body : Hcl.Body) :
    ((∃ fault, ofBody body = .error fault) ↔ IsIncomplete body) ∧
      (∀ config, ofBody body = .ok config ↔ ¬ IsIncomplete body ∧ Declares body config) ∧
      ofBody (body.filterMap readPart?) = ofBody body := by
  refine ⟨?_, fun config => ofBody_eq_ok_iff, ofBody_filterMap_readPart? body⟩
  rw [← not_iff_not, ← exists_ofBody_eq_ok_iff]
  cases ofBody body <;> simp

/-- A later block of a name may lack its directory. -/
example : (ofBody [
    .block "dependency" ["db"] [.attribute "config_path" (.string "../db")],
    .block "dependency" ["db"] []]).map (·.dependencies) = .ok [("db", "../db")] := by
  rfl

end InfraGraph.ParsedConfig
