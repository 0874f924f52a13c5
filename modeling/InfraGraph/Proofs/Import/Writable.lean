import InfraGraph.Proofs.Config.ReadBack
import InfraGraph.Proofs.Import.Stable

/-!
# Graphs with texts that can be written as they are

The generator writes keys, values, names and directories as they are, without quotes of its own
for keys and without escapes.  What reading gives back is therefore a matter of each single text of
a graph, and not of how they stand together.
-/

namespace InfraGraph

open Hcl (IsVerbatim IsIdentifier IsKeyText IsValueText)

/-- A path whose parts mean themselves between quotes does so, too. -/
theorem Path.isVerbatim_unsplit {parts : List String}
    (h : ∀ name ∈ parts, IsVerbatim name.toList) : IsVerbatim (Path.unsplit parts).toList := by
  induction parts with
  | nil =>
      rw [unsplit_nil]
      decide
  | cons name parts ih =>
      obtain ⟨hname, hparts⟩ := List.forall_mem_cons.1 h
      by_cases hnil : parts = []
      · rwa [hnil, unsplit_singleton]
      · have htext : (unsplit (name :: parts)).toList =
            name.toList ++ '/' :: (unsplit parts).toList := by
          rw [unsplit_cons hnil]
          simp
        rw [htext]
        exact hname.join (ih hparts)

/-- The source of a module means itself between quotes. -/
theorem ModuleSource.isVerbatim_ofName {base module : String} (hbase : IsBase base)
    (hverbatim : IsVerbatim base.toList) (hmodule : IsVerbatim module.toList) :
    IsVerbatim (ofName base module).toList := by
  rw [ofName, String.toList_append]
  refine hverbatim.append hmodule fun c hc => ?_
  obtain ⟨front, hfront⟩ := hbase.ends
  rw [← hfront, List.getLast?_append] at hc
  obtain rfl : '/' = c := Option.some.inj hc
  simp

theorem NodeType.outputFileName_isLine (type : NodeType) :
    ∀ c ∈ type.outputFileName.toList, c ≠ '\n' ∧ c ≠ '\r' := by
  cases type <;> simp [outputFileName, defaultFileName]

/-- What lies somewhere lies below labels. -/
theorem LiesAt.forall_parts {nodes : List Node} {node : Node} {parts : List String}
    {P : String → Prop} (h : LiesAt nodes node parts)
    (hlabels : ∀ node ∈ nodes, P (sanitizeLabel node.label)) : ∀ name ∈ parts, P name := by
  obtain ⟨above, hlineage, rfl⟩ := h
  have hmem := hlineage.subset
  generalize node :: above = lineage at hmem
  induction lineage with
  | nil => simp [directoryParts]
  | cons upper lineage ih =>
      obtain ⟨hupper, hrest⟩ := List.cons_subset.1 hmem
      rw [directoryParts]
      split
      · exact ih hrest
      · rw [List.forall_mem_append, List.forall_mem_singleton]
        exact ⟨ih hrest, hlabels upper hupper⟩

/-- The texts of a graph can stand in configuration files as they are. -/
structure Graph.IsWritable (g : Graph) : Prop where
  locals : ∀ node ∈ g.nodes, ∀ entry ∈ node.locals.toList, IsValueText entry.2
  inputs : ∀ node ∈ g.nodes, ∀ entry ∈ node.inputs.toList, IsKeyText entry.1 ∧ IsValueText entry.2
  /-- Names of modules don't have doubled slashes, which reading would make single. -/
  modules : ∀ node ∈ g.nodes, ∀ module ∈ node.type.module?,
    IsVerbatim module.toList ∧ ModuleSource.joinSlashes module.toList = module.toList
  names : ∀ edge ∈ g.edges, ∀ name ∈ edge.dependencyName, IsVerbatim name.toList
  /-- The directories that dependencies lead to. -/
  targets : ∀ edge ∈ g.edges, ∀ node parts, LiesAt g.nodes node parts → node.id = edge.target →
    ∀ name ∈ parts, IsVerbatim name.toList

namespace Graph.IsWritable

variable {g : Graph} {paths : PathMap}

/-- The directory that a dependency states has parts of the directory of its target. -/
theorem isVerbatim_relative (hg : g.IsWritable) (hids : DistinctIds g.nodes)
    (hpaths : resolvePaths g.nodes = .ok paths) {edge : Edge} (hedge : edge ∈ g.edges)
    {source : List String} (hsource : ∀ name ∈ source, Path.IsPlain name) {path : String}
    (hpath : paths.find? edge.target = some path) :
    IsVerbatim (Path.relative (Path.unsplit source) path).toList := by
  obtain ⟨node, parts, _, hid, hlies, rfl⟩ := (find?_resolvePaths hids hpaths).1 hpath
  have hparts := hg.targets edge hedge node parts hlies hid
  rw [Path.relative_unsplit hsource (hlies.isPlain hpaths)]
  split
  · decide
  · refine Path.isVerbatim_unsplit fun name hname => ?_
    rcases List.mem_append.1 hname with hname | hname
    · rw [(List.mem_replicate.1 hname).2]
      decide
    · exact hparts name (List.mem_of_mem_drop hname)

/-- Dependencies are written as they are. -/
theorem isVerbatim_dependencies (hg : g.IsWritable) (hids : DistinctIds g.nodes)
    (hpaths : resolvePaths g.nodes = .ok paths) {node : Node} {path : String}
    {dependencies : SortedMap String} (hplaced : IsPlaced g.nodes node path)
    (hdependencies : resolveDependencies node.id path (g.outgoing node.id) paths =
      .ok dependencies) :
    ∀ entry ∈ dependencies.toList, IsVerbatim entry.1.toList ∧ IsVerbatim entry.2.toList := by
  obtain ⟨_, source, hlies, rfl⟩ := hplaced
  obtain ⟨hresolve, rfl⟩ := resolveDependencies_eq_ok_iff.1 hdependencies
  intro entry hentry
  have hmem := SortedMap.mem_of_find?_ofList (SortedMap.mem_toList_iff.1 hentry)
  obtain ⟨edge, hedge, hsaid⟩ := List.mem_map.1 hmem
  obtain rfl : edge.dependency (Path.unsplit source) paths = entry := hsaid
  have hresolvable := hresolve.resolvable edge hedge
  obtain ⟨hedge, _⟩ := mem_activeEdges.1 (activeEdges_outgoing g node.id ▸ hedge)
  obtain ⟨target, htarget⟩ := hresolvable.placed
  refine ⟨hg.names edge hedge _ hresolvable.dependencyName, ?_⟩
  have hrelative := hg.isVerbatim_relative hids hpaths hedge (hlies.isPlain hpaths) htarget
  rwa [Edge.dependency, htarget, Option.getD_some]

/-- What is written for a node is read again. -/
theorem readsBack (hg : g.IsWritable) (hids : DistinctIds g.nodes) {moduleBase : String}
    (hbase : ModuleSource.IsBase moduleBase) (hverbatim : IsVerbatim moduleBase.toList)
    (hlocals : ∀ node ∈ g.nodes, ∀ key ∈ node.locals.keys, IsIdentifier key.toList)
    (hmodules : ∀ node ∈ g.nodes, ∀ module ∈ node.type.module?, module ≠ "")
    (hpaths : resolvePaths g.nodes = .ok paths) {node : Node} {path : String}
    {dependencies : SortedMap String} (hplaced : IsPlaced g.nodes node path)
    (hdependencies : resolveDependencies node.id path (g.outgoing node.id) paths =
      .ok dependencies) :
    (Archive.configFile moduleBase node dependencies).ReadsBack node.type.module? := by
  have hnode : node ∈ g.nodes := by
    obtain ⟨_, source, hlies, _⟩ := hplaced
    exact hlies.mem
  have hreadable : (Archive.configFile moduleBase node dependencies).IsReadable := by
    refine ⟨node.type.outputFileName_isLine, fun source hsource => ?_, fun entry hentry => ?_,
      hg.inputs node hnode, hg.isVerbatim_dependencies hids hpaths hplaced hdependencies⟩
    · obtain ⟨module, hmodule, rfl⟩ := Option.map_eq_some_iff.1 hsource
      exact ModuleSource.isVerbatim_ofName hbase hverbatim (hg.modules node hnode module hmodule).1
    · exact ⟨hlocals node hnode _ (List.mem_map.2 ⟨entry, hentry, rfl⟩),
        hg.locals node hnode entry hentry⟩
  refine ⟨_, ConfigFile.parse_text hreadable, rfl, rfl, rfl, fun module hmodule => ?_⟩
  refine ⟨ModuleSource.ofName moduleBase module, ?_, ModuleSource.name?_ofName hbase
    (hmodules node hnode module hmodule) (hg.modules node hnode module hmodule).2⟩
  simp only [Archive.configFile, hmodule, Option.map_some]

end Graph.IsWritable

end InfraGraph
