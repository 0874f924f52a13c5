import InfraGraph.Config.ModuleSource
import InfraGraph.Config.Render
import InfraGraph.Proofs.Config.Parts
import InfraGraph.Proofs.Hcl.Body
import InfraGraph.Proofs.Hcl.Values
import InfraGraph.Proofs.SortedMap

/-!
# Reading a generated configuration file

A generated file is a comment with a name, and then blocks and at most one attribute, in a fixed
order.  Nothing in it is escaped.  It declares what it was made from, if each of the texts in it
can stand at its place.
-/

namespace InfraGraph

open Hcl (IsIdentifier IsVerbatim IsKeyText IsValueText ReadsAs IsPart Expression Structure
  definitionLine attributesOf blockText bodyText)

namespace ConfigFile

/-- Every text of a configuration file can stand where it is written. -/
structure IsReadable (file : ConfigFile) : Prop where
  fileName : ∀ c ∈ file.fileName.toList, c ≠ '\n' ∧ c ≠ '\r'
  source : ∀ source ∈ file.moduleSource, IsVerbatim source.toList
  locals : ∀ entry ∈ file.locals.toList, IsIdentifier entry.1.toList ∧ IsValueText entry.2
  inputs : ∀ entry ∈ file.inputs.toList, IsKeyText entry.1 ∧ IsValueText entry.2
  dependencies : ∀ entry ∈ file.dependencies.toList,
    IsVerbatim entry.1.toList ∧ IsVerbatim entry.2.toList

/-- Every text of a configuration file is read where it is written, and the values as some given
expressions. -/
structure IsReadAs (values : String → Expression) (file : ConfigFile) : Prop where
  fileName : ∀ c ∈ file.fileName.toList, c ≠ '\n' ∧ c ≠ '\r'
  source : ∀ source ∈ file.moduleSource, IsVerbatim source.toList
  locals : ∀ entry ∈ file.locals.toList,
    IsIdentifier entry.1.toList ∧ ReadsAs entry.2.toList ['\n'] (values entry.2)
  inputs : ∀ entry ∈ file.inputs.toList,
    IsKeyText entry.1 ∧ ReadsAs entry.2.toList ['\n'] (values entry.2)
  dependencies : ∀ entry ∈ file.dependencies.toList,
    IsVerbatim entry.1.toList ∧ IsVerbatim entry.2.toList

/-! ### Parts of a file -/

/-- A text between quotes. -/
def quote (text : String) : String :=
  "\"" ++ text ++ "\""

/-- The blocks that a file starts with if it has a source. -/
def sourceParts (source : String) : List (List Char × Structure) :=
  [(blockText "terraform" [] 4 [("source", quote source)] [],
    .block "terraform" [] [.attribute "source" (.string source)]),
   (blockText "include" ["root"] 4 [("path", "find_in_parent_folders()")] [],
    .block "include" ["root"] [.attribute "path" (.call "find_in_parent_folders" [] false)])]

/-- The block of local variables. -/
def localsPart (values : String → Expression) (locals : SortedMap String) :
    List Char × Structure :=
  (blockText "locals" [] 2 locals.toList ['\n'],
    .block "locals" [] (attributesOf values locals.toList))

/-- The items that inputs are read as. -/
def itemsOf (keys values : String → Expression) (inputs : SortedMap String) :
    List (Hcl.Key × Expression) :=
  inputs.toList.map fun entry => (Hcl.Key.ofExpression (keys entry.1), values entry.2)

/-- The attribute with the inputs, if there are any. -/
def inputsParts (keys values : String → Expression) (inputs : SortedMap String) :
    List (List Char × Structure) :=
  if inputs.isEmpty then []
  else
    [("inputs".toList ++ ([' ', '=', ' '] ++
        '\x7b' :: '\n' :: (inputs.toList.flatMap (definitionLine 2) ++ ['\n', '\x7d'])),
      .attribute "inputs" (.object (itemsOf keys values inputs)))]

/-- The block of a dependency. -/
def dependencyPart (entry : String × String) : List Char × Structure :=
  (blockText "dependency" [entry.1] 2 [("config_path", quote entry.2)] [],
    .block "dependency" [entry.1] [.attribute "config_path" (.string entry.2)])

/-- The parts of a file, with what each is read as. -/
def parts (keys values : String → Expression) (file : ConfigFile) :
    List (List Char × Structure) :=
  (file.moduleSource.map sourceParts).getD [] ++ ([localsPart values file.locals] ++
    (inputsParts keys values file.inputs ++ file.dependencies.toList.map dependencyPart))

theorem toList_definitionsText (definitions : SortedMap String) :
    (definitionsText definitions).toList = definitions.toList.flatMap (definitionLine 2) := by
  rw [definitionsText, String.toList_join, List.flatMap_map]
  refine List.flatMap_congr fun entry _ => ?_
  simp [definitionText, definitionLine]

theorem toList_sourceText (source : String) :
    (sourceText source).toList = bodyText (sourceParts source) := by
  delta sourceText
  simp [bodyText, sourceParts, blockText, Hcl.labelsText, definitionLine, quote]

theorem toList_localsText (values : String → Expression) (locals : SortedMap String) :
    (localsText locals).toList = bodyText [localsPart values locals] := by
  simp [localsText, bodyText, localsPart, blockText, Hcl.labelsText, toList_definitionsText]

theorem toList_inputsText (keys values : String → Expression) (inputs : SortedMap String) :
    (inputsText inputs).toList = bodyText (inputsParts keys values inputs) := by
  unfold inputsText inputsParts
  split
  · rfl
  · simp [bodyText, toList_definitionsText]

theorem toList_dependencyText (entry : String × String) :
    (dependencyText entry).toList = bodyText [dependencyPart entry] := by
  simp [dependencyText, bodyText, dependencyPart, blockText, Hcl.labelsText, definitionLine, quote]

/-- The text of a file is the text of its parts behind a comment. -/
theorem toList_text (keys values : String → Expression) (file : ConfigFile) :
    file.text.toList = '#' :: (' ' :: file.fileName.toList) ++
      '\n' :: '\n' :: bodyText (file.parts keys values) := by
  have hsource : ((file.moduleSource.map sourceText).getD "").toList =
      bodyText ((file.moduleSource.map sourceParts).getD []) := by
    cases file.moduleSource with
    | none => rfl
    | some source => exact toList_sourceText source
  have hdependencies : (String.join (file.dependencies.toList.map dependencyText)).toList =
      bodyText (file.dependencies.toList.map dependencyPart) := by
    rw [String.toList_join, List.flatMap_map, bodyText, List.flatMap_map]
    refine List.flatMap_congr fun entry _ => ?_
    rw [toList_dependencyText, bodyText, List.flatMap_singleton]
  have happend : ∀ ps qs : List (List Char × Structure),
      bodyText (ps ++ qs) = bodyText ps ++ bodyText qs := fun _ _ => List.flatMap_append
  have hlocals := toList_localsText values file.locals
  rw [text, parts, happend, happend, happend, ← hsource, ← hlocals, ← toList_inputsText,
    ← hdependencies]
  simp

/-! ### Each part is read as it says -/

theorem readsAs_quote {text : String} (h : IsVerbatim text.toList) :
    ReadsAs (quote text).toList ['\n'] (.string text) := by
  have htext : (quote text).toList = '"' :: (text.toList ++ ['"']) := by
    simp [quote]
  rw [htext]
  exact Hcl.readsAs_quoted h

theorem isPart_of_mem_sourceParts {source : String} (h : IsVerbatim source.toList) :
    ∀ part ∈ sourceParts source, IsPart part.1 part.2 := by
  have hterraform := @Hcl.isPart_block (fun _ => .string source) "terraform" []
    [("source", quote source)] 4 [] (by decide) (by simp) (by simp; decide) (by simp)
    (by simpa using readsAs_quote h) (by simp)
  have hcall : ReadsAs "find_in_parent_folders()".toList ['\n']
      (.call "find_in_parent_folders" [] false) := by
    have hplain : (Expression.call "find_in_parent_folders" [] false).IsPlain :=
      .call (by decide) (by simp)
    exact @Expression.IsPlain.readsAs _ hplain ['\n'] Hcl.endsValue_newline
  have hinclude := @Hcl.isPart_block (fun _ => .call "find_in_parent_folders" [] false) "include"
    ["root"] [("path", "find_in_parent_folders()")] 4 [] (by decide) (by simp; decide)
    (by simp; decide) (by simp) (by simpa using hcall) (by simp)
  simp only [sourceParts, List.forall_mem_cons]
  exact ⟨hterraform, hinclude, by simp⟩

theorem isPart_dependencyPart {entry : String × String} (hname : IsVerbatim entry.1.toList)
    (hpath : IsVerbatim entry.2.toList) :
    IsPart (dependencyPart entry).1 (dependencyPart entry).2 :=
  @Hcl.isPart_block (fun _ => .string entry.2) "dependency" [entry.1]
    [("config_path", quote entry.2)] 2 [] (by decide) (by simpa using hname) (by simp; decide)
    (by simp) (by simpa using readsAs_quote hpath) (by simp)

/-- Every part of a file is read as it says. -/
theorem isPart_of_mem_parts {keys values : String → Expression} {file : ConfigFile}
    (h : file.IsReadAs values)
    (hkeys : ∀ key, IsKeyText key → ReadsAs key.toList [' ', '=', ' '] (keys key) ∧
      (keys key).text = key) :
    ∀ part ∈ file.parts keys values, IsPart part.1 part.2 := by
  intro part hpart
  simp only [parts, List.mem_append, List.mem_singleton, List.mem_map] at hpart
  rcases hpart with hpart | rfl | hpart | ⟨entry, hentry, rfl⟩
  · cases hsource : file.moduleSource with
    | none =>
        rw [hsource] at hpart
        cases hpart
    | some source =>
        rw [hsource] at hpart
        exact isPart_of_mem_sourceParts (h.source source hsource) part hpart
  · refine Hcl.isPart_block 2 (by decide) (by simp) (fun entry hentry => (h.locals entry hentry).1)
      file.locals.keys_nodup (fun entry hentry => (h.locals entry hentry).2) ?_
    intro rest
    exact Hcl.skipBlanks_newline rest
  · unfold inputsParts at hpart
    split at hpart
    · cases hpart
    · obtain rfl := List.mem_singleton.1 hpart
      refine Hcl.isPart_attribute (by decide) (Hcl.readsAs_object file.inputs.keys_nodup
        (fun entry hentry => (hkeys _ (h.inputs entry hentry).1).2)
        (fun entry hentry => (hkeys _ (h.inputs entry hentry).1).1)
        (fun entry hentry => (h.inputs entry hentry).2)
        fun entry hentry => (h.inputs entry hentry).1.noFor)
  · obtain ⟨hname, hpath⟩ := h.dependencies entry hentry
    exact isPart_dependencyPart hname hpath

/-! ### What the parts declare -/

section Declared

variable {keys values : String → Expression} {file : ConfigFile}

/-- The block of a dependency, as it is read. -/
def dependencyBlock (entry : String × String) : Hcl.Block :=
  ⟨"dependency", [entry.1], [.attribute "config_path" (.string entry.2)]⟩

/-- The blocks in front of the local variables, as they are read. -/
def sourceBlocks (source : String) : List Hcl.Block :=
  [⟨"terraform", [], [.attribute "source" (.string source)]⟩,
   ⟨"include", ["root"], [.attribute "path" (.call "find_in_parent_folders" [] false)]⟩]

theorem attributes_parts :
    Hcl.Body.attributes ((file.parts keys values).map (·.2)) =
      if file.inputs.isEmpty then []
      else [("inputs", .object (itemsOf keys values file.inputs))] := by
  have hdependencies : Hcl.Body.attributes ((file.dependencies.toList.map dependencyPart).map
      (·.2)) = [] := by
    rw [List.map_map, Hcl.Body.attributes, List.filterMap_map]
    exact List.filterMap_eq_nil_iff.2 fun _ _ => rfl
  have happend : ∀ a b : Hcl.Body, Hcl.Body.attributes (a ++ b) = a.attributes ++ b.attributes :=
    fun _ _ => List.filterMap_append
  simp only [parts, List.map_append, happend, hdependencies, inputsParts]
  cases file.moduleSource <;> split <;> rfl

theorem blocks_parts :
    Hcl.Body.blocks ((file.parts keys values).map (·.2)) =
      (file.moduleSource.map sourceBlocks).getD [] ++
        (⟨"locals", [], attributesOf values file.locals.toList⟩ ::
          file.dependencies.toList.map dependencyBlock) := by
  have hdependencies : Hcl.Body.blocks ((file.dependencies.toList.map dependencyPart).map
      (·.2)) = file.dependencies.toList.map dependencyBlock := by
    rw [List.map_map, Hcl.Body.blocks, List.filterMap_map]
    exact congrFun List.filterMap_eq_map' _
  have happend : ∀ a b : Hcl.Body, Hcl.Body.blocks (a ++ b) = a.blocks ++ b.blocks :=
    fun _ _ => List.filterMap_append
  simp only [parts, List.map_append, happend, hdependencies, inputsParts]
  cases file.moduleSource <;> split <;> rfl

/-- The items of an object give the inputs back, with their values written again. -/
theorem addItems_itemsOf {inputs : SortedMap String}
    (hkeys : ∀ entry ∈ inputs.toList,
      ParsedConfig.keyText (Hcl.Key.ofExpression (keys entry.1)) = entry.1) :
    ParsedConfig.addItems .empty (itemsOf keys values inputs) =
      inputs.map fun value => (values value).text := by
  rw [ParsedConfig.addItems, itemsOf, List.foldl_map]
  conv_rhs => rw [← (inputs.map _).ofList_toList, SortedMap.ofList, SortedMap.map, List.foldl_map]
  refine List.foldl_ext _ _ _ fun m entry hentry => ?_
  rw [hkeys entry hentry]

/-- The attributes of a block give the local variables back, with their values written again. -/
theorem insertAll_attributeEntries (locals : SortedMap String) :
    SortedMap.empty.insertAll
        (ParsedConfig.attributeEntries ⟨"locals", [], attributesOf values locals.toList⟩) =
      locals.map fun value => (values value).text := by
  rw [ParsedConfig.attributeEntries, Hcl.attributes_attributesOf, List.map_map]
  exact SortedMap.ofList_toList (locals.map fun value => (values value).text)

/-- Dependencies with new names are added in their order. -/
theorem foldlM_addDependency_blocks {entries dependencies : List (String × String)}
    (h : ((dependencies ++ entries).map (·.1)).Nodup) :
    (entries.map dependencyBlock).foldlM ParsedConfig.addDependency dependencies =
      .ok (dependencies ++ entries) := by
  induction entries generalizing dependencies with
  | nil => rw [List.append_nil]; rfl
  | cons entry entries ih =>
      have hnew : entry.1 ∉ dependencies.map (·.1) := by
        rw [List.map_append, List.nodup_append] at h
        exact fun hmem => h.2.2 _ hmem _ List.mem_cons_self rfl
      have hadd : ParsedConfig.addDependency dependencies (dependencyBlock entry) =
          .ok (dependencies ++ [entry]) :=
        ParsedConfig.addDependency_eq_ok_iff.2 ⟨entry.1, rfl, .inr ⟨hnew, _, rfl, rfl⟩⟩
      rw [List.append_cons] at h ⊢
      rw [List.map_cons, List.foldlM_cons, hadd]
      exact ih h

/-- The blocks of a type are among the first ones, or they are those of the dependencies. -/
theorem ofType_blocks_parts (type : String) :
    ParsedConfig.ofType type (Hcl.Body.blocks ((file.parts keys values).map (·.2))) =
      ParsedConfig.ofType type ((file.moduleSource.map sourceBlocks).getD [] ++
          [⟨"locals", [], attributesOf values file.locals.toList⟩]) ++
        if type = "dependency" then file.dependencies.toList.map dependencyBlock else [] := by
  have hdependencies : ParsedConfig.ofType type (file.dependencies.toList.map dependencyBlock) =
      if type = "dependency" then file.dependencies.toList.map dependencyBlock else [] := by
    split
    · subst_vars
      exact List.filter_eq_self.2 (List.forall_mem_map.2 fun _ _ => rfl)
    · rename_i hother
      exact List.filter_eq_nil_iff.2 (List.forall_mem_map.2 fun _ _ hsame =>
        hother (of_decide_eq_true hsame).symm)
  rw [← hdependencies, blocks_parts, List.append_cons, ParsedConfig.ofType, List.filter_append]
  rfl

/-- What a file was made from is what its parts declare, with the values written again. -/
theorem ofBody_parts (hnames : ∀ entry ∈ file.inputs.toList,
      ParsedConfig.keyText (Hcl.Key.ofExpression (keys entry.1)) = entry.1) :
    ParsedConfig.ofBody ((file.parts keys values).map (·.2)) =
      .ok ⟨file.moduleSource, file.locals.map fun value => (values value).text,
        file.inputs.map fun value => (values value).text, file.dependencies.toList⟩ := by
  have hattributes : (Hcl.Body.attributes ((file.parts keys values).map (·.2))).foldlM
      ParsedConfig.addInputs .empty = .ok (file.inputs.map fun value => (values value).text) := by
    rw [attributes_parts]
    split
    · rename_i hempty
      rw [SortedMap.isEmpty_iff.1 hempty]
      rfl
    · rw [List.foldlM_cons, ParsedConfig.addInputs, if_pos rfl]
      simp only [addItems_itemsOf hnames]
      rfl
  have hlocals : ParsedConfig.ofType "locals"
      (Hcl.Body.blocks ((file.parts keys values).map (·.2))) =
        [⟨"locals", [], attributesOf values file.locals.toList⟩] := by
    rw [ofType_blocks_parts]
    cases file.moduleSource <;> rfl
  have hsource : (ParsedConfig.ofType "terraform"
      (Hcl.Body.blocks ((file.parts keys values).map (·.2)))).findSome?
        (fun block => ParsedConfig.stringAttribute? block "source") = file.moduleSource := by
    rw [ofType_blocks_parts]
    cases file.moduleSource <;> rfl
  have hdependencies : ParsedConfig.ofType "dependency"
      (Hcl.Body.blocks ((file.parts keys values).map (·.2))) =
        file.dependencies.toList.map dependencyBlock := by
    rw [ofType_blocks_parts]
    cases file.moduleSource <;> rfl
  rw [ParsedConfig.ofBody, hattributes]
  change List.foldlM _ _ _ = _
  rw [ParsedConfig.foldlM_addBlock, hlocals, hsource, hdependencies,
    @foldlM_addDependency_blocks file.dependencies.toList [] file.dependencies.keys_nodup,
    List.flatMap_singleton, insertAll_attributeEntries]
  rfl

end Declared

/-- Only quoted keys count as another text than the one they are written as. -/
theorem keyText_ofExpression {e : Expression} (h : ∀ s, e ≠ .string s) :
    ParsedConfig.keyText (Hcl.Key.ofExpression e) = e.text := by
  rw [← Hcl.Key.text_ofExpression e]
  have hstring : ∀ s, Hcl.Key.ofExpression e ≠ .value (.string s) := by
    intro s hs
    unfold Hcl.Key.ofExpression at hs
    split at hs
    · cases hs
    · exact h s (Hcl.Key.value.inj hs)
  generalize Hcl.Key.ofExpression e = key at hstring
  cases key with
  | name name => exact String.ofList_toList.symm
  | value e =>
      cases e with
      | string s => exact absurd rfl (hstring s)
      | _ => rfl

/-- A file is read as what it was made from, with the values written again. -/
theorem parse_text_map {values : String → Expression} {file : ConfigFile}
    (h : file.IsReadAs values) :
    ParsedConfig.parse file.text =
      .ok ⟨file.moduleSource, file.locals.map fun value => (values value).text,
        file.inputs.map fun value => (values value).text, file.dependencies.toList⟩ := by
  choose! keys hkeys using fun key (hkey : IsKeyText key) => hkey.reads
  have hparse : Hcl.parse? file.text = some ((file.parts keys values).map (·.2)) := by
    refine Hcl.parse?_eq (toList_text keys values file) ?_ (isPart_of_mem_parts h
      fun key hkey => ⟨(hkeys key hkey).1, (hkeys key hkey).2.1⟩) ?_
    · simpa using h.fileName
    · rw [attributes_parts]
      split <;> simp
  rw [ParsedConfig.parse, hparse]
  refine ofBody_parts fun entry hentry => ?_
  obtain ⟨_, htext, hstring⟩ := hkeys _ (h.inputs entry hentry).1
  exact (keyText_ofExpression hstring).trans htext

/-- A file is read as what it was made from, if its values are what is written for them. -/
theorem parse_text {file : ConfigFile} (h : file.IsReadable) :
    ParsedConfig.parse file.text =
      .ok ⟨file.moduleSource, file.locals, file.inputs, file.dependencies.toList⟩ := by
  choose! values hvalues using fun value (hvalue : IsValueText value) => hvalue
  have hreads : file.IsReadAs values :=
    ⟨h.fileName, h.source,
      fun entry hentry => (h.locals entry hentry).imp_right fun hvalue => (hvalues _ hvalue).1,
      fun entry hentry => (h.inputs entry hentry).imp_right fun hvalue => (hvalues _ hvalue).1,
      h.dependencies⟩
  rw [parse_text_map hreads,
    SortedMap.map_eq_self fun entry hentry => (hvalues _ (h.locals entry hentry).2).2,
    SortedMap.map_eq_self fun entry hentry => (hvalues _ (h.inputs entry hentry).2).2]

end ConfigFile

/-! ### Sources of modules -/

namespace ModuleSource

/-- A text that ends in the marker and has it nowhere else. -/
structure IsBase (base : String) : Prop where
  ends : marker.toList <:+ base.toList
  once : ∀ front behind, base.toList = front ++ (marker.toList ++ behind) → behind = []

theorem joinSlashes_ne_nil {text : List Char} (h : text ≠ []) : joinSlashes text ≠ [] := by
  unfold joinSlashes
  split
  · exact List.cons_ne_nil _ _
  · exact List.cons_ne_nil _ _
  · exact absurd rfl h

/-- What follows the only occurrence of a mark is found, whatever it is. -/
theorem behindFirst?_append {mark front : List Char} (hmark : mark ≠ [])
    (honce : ∀ a b, front ++ mark = a ++ (mark ++ b) → b = []) (behind : List Char) :
    behindFirst? mark (front ++ (mark ++ behind)) = some behind := by
  induction front with
  | nil =>
      obtain ⟨c, rest, rfl⟩ := List.exists_cons_of_ne_nil hmark
      rw [List.nil_append, List.cons_append, behindFirst?, if_pos]
      · rw [← List.cons_append, List.drop_left]
      · rw [← List.cons_append, List.isPrefixOf_iff_prefix]
        exact List.prefix_append _ _
  | cons c front ih =>
      have hnot : ¬ mark.isPrefixOf (c :: (front ++ (mark ++ behind))) = true := by
        -- An occurrence that starts in front of the last one would end in front of its end.
        rw [List.isPrefixOf_iff_prefix, ← List.append_assoc, ← List.cons_append,
          ← List.cons_append]
        intro hfirst
        have hwithin : mark <+: c :: front ++ mark :=
          List.prefix_of_prefix_length_le hfirst (List.prefix_append _ _) (by simp; omega)
        obtain ⟨b, hb⟩ := hwithin
        have hnil := honce [] b hb.symm
        rw [hnil, List.append_nil] at hb
        have hlength := congrArg List.length hb
        rw [List.length_append, List.length_cons] at hlength
        omega
      rw [List.cons_append, behindFirst?, if_neg hnot]
      exact ih fun a b hab => honce (c :: a) b (by rw [List.cons_append, hab, List.cons_append])

/-- What stands behind a base is found, with pairs of slashes replaced. -/
theorem name?_ofName_eq {base : String} (h : IsBase base) {module : String} (hne : module ≠ "") :
    name? (ofName base module) = some (String.ofList (joinSlashes module.toList)) := by
  obtain ⟨front, hfront⟩ := h.ends
  have hbehind := @behindFirst?_append marker.toList front (by decide)
    (fun a b hab => h.once a b (hfront ▸ hab)) module.toList
  rw [← List.append_assoc, hfront] at hbehind
  have hnil : joinSlashes module.toList ≠ [] :=
    joinSlashes_ne_nil fun hnil => hne (String.toList_eq_nil_iff.1 hnil)
  simp only [name?, ofName, String.toList_append, hbehind, if_neg hnil]

/-- A module is found behind its base, if its name is there and has no doubled slashes. -/
theorem name?_ofName {base : String} (h : IsBase base) {module : String} (hne : module ≠ "")
    (hjoined : joinSlashes module.toList = module.toList) :
    name? (ofName base module) = some module := by
  rw [name?_ofName_eq h hne, hjoined, String.ofList_toList]

end ModuleSource

end InfraGraph
