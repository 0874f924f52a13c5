import InfraGraph.Proofs.Graph.Dependencies
import InfraGraph.Proofs.Graph.Preorder
import InfraGraph.Proofs.Path.Relative

/-!
# The first edge that makes no dependency

Edges are looked at one after the other.  An edge has a fault if it has no name, otherwise if its
target has no directory, otherwise if an edge before it has its name.  Dependencies resolve unless
an edge has a fault, and then the first such edge is reported.  What they resolve to doesn't depend
on the order of the edges, and leads from the directory of the node to those of the targets.
-/

namespace InfraGraph

/-- What is wrong with an enabled edge, given the enabled edges of its node before it. -/
inductive Edge.HasFault (paths : PathMap) (before : List Edge) (edge : Edge) : GraphError → Prop
  | unnamed (hname : edge.dependencyName = none ∨ edge.dependencyName = some "") :
    HasFault paths before edge (.unnamedDependency edge.id)
  | unknownTarget {name : String} (hname : edge.dependencyName = some name) (hne : name ≠ "")
    (htarget : edge.target ∉ paths.keys) :
    HasFault paths before edge (.unknownEdgeTarget edge.id edge.target)
  | repeatedName {name : String} (hname : edge.dependencyName = some name) (hne : name ≠ "")
    (htarget : edge.target ∈ paths.keys) {other : Edge} (hother : other ∈ before)
    (hrepeat : other.dependencyName = some name) :
    HasFault paths before edge (.duplicateDependencyName edge.source name)

/-- Of the edges in a list, the first one that has a fault has this one. -/
def IsFirstFault (paths : PathMap) (edges : List Edge) (e : GraphError) : Prop :=
  ∃ front edge back, edges = front ++ edge :: back ∧ edge.HasFault paths front e ∧
    ∀ before other after, front = before ++ other :: after →
      ∀ fault, ¬ other.HasFault paths before fault

/-- The edge makes the entry: its name, with the way to the directory of its target. -/
def Edge.Makes (edge : Edge) (nodePath : String) (paths : PathMap) (entry : String × String) :
    Prop :=
  edge.dependencyName = some entry.1 ∧
    ∃ target, paths.find? edge.target = some target ∧ entry.2 = Path.relative nodePath target

section Faults

variable {nodeId nodePath : String} {paths : PathMap} {edges edges' : List Edge}

/-! ### One edge after the other -/

/-- An edge is refused for its fault, where the names so far are those of the edges before it. -/
theorem addDependency_eq_error_iff {dependencies : SortedMap String} {before : List Edge}
    (hkeys : ∀ name, name ∈ dependencies.keys ↔
      ∃ other ∈ before, other.dependencyName = some name) {edge : Edge} {e : GraphError} :
    addDependency nodePath paths dependencies edge = .error e ↔ edge.HasFault paths before e := by
  constructor
  · intro h
    unfold addDependency at h
    split at h
    · rename_i hname
      exact Except.error.inj h ▸ .unnamed (.inl hname)
    · rename_i name hname
      split at h
      · rename_i hempty
        exact Except.error.inj h ▸ .unnamed (.inr (hempty ▸ hname))
      · rename_i hne
        split at h
        · rename_i htarget
          exact Except.error.inj h ▸ .unknownTarget hname hne
            (SortedMap.find?_eq_none_iff.1 htarget)
        · rename_i target htarget
          split at h
          · rename_i hrepeat
            obtain ⟨other, hother, hsame⟩ :=
              (hkeys name).1 (SortedMap.mem_keys_iff.2 (SortedMap.contains_iff.1 hrepeat))
            exact Except.error.inj h ▸ .repeatedName hname hne
              (SortedMap.mem_keys_iff.2 ⟨target, htarget⟩) hother hsame
          · cases h
  · rintro (hname | ⟨hname, hne, htarget⟩ | ⟨hname, hne, htarget, hother, hrepeat⟩)
    · rcases hname with hname | hname <;> simp [addDependency, hname]
    · simp [addDependency, hname, hne, SortedMap.find?_eq_none_iff.2 htarget]
    · obtain ⟨target, htarget⟩ := SortedMap.mem_keys_iff.1 htarget
      have htaken := SortedMap.contains_iff.2
        (SortedMap.mem_keys_iff.1 ((hkeys _).2 ⟨_, hother, hrepeat⟩))
      simp [addDependency, hname, hne, htarget, htaken]

/-- The names that were added are those of the edges. -/
theorem mem_keys_of_foldlM {dependencies : SortedMap String}
    (h : edges.foldlM (addDependency nodePath paths) .empty = .ok dependencies) (name : String) :
    name ∈ dependencies.keys ↔ ∃ edge ∈ edges, edge.dependencyName = some name := by
  rw [SortedMap.foldlM_eq_ok_iff_insertAll fun deps e result =>
    @addDependency_eq_ok_iff nodePath paths deps result e] at h
  obtain ⟨hall, _, _, rfl⟩ := h
  have hnames : name ∈ (SortedMap.ofList (edges.map (·.dependency nodePath paths))).keys ↔
      ∃ edge ∈ edges, (edge.dependency nodePath paths).1 = name := by
    rw [SortedMap.mem_keys_ofList, List.map_map, List.mem_map]
    rfl
  refine hnames.trans (exists_congr fun edge => and_congr_right fun hedge => ?_)
  rw [(hall edge hedge).dependencyName, Option.some.injEq]

/-- Dependencies fail to resolve for the first fault. -/
theorem resolveDependencies_eq_error_iff {e : GraphError} :
    resolveDependencies nodeId nodePath edges paths = .error e ↔
      IsFirstFault paths (activeEdges edges nodeId) e := by
  rw [resolveDependencies, ← activeEdges, foldlM_eq_error_iff]
  constructor
  · rintro ⟨front, edge, back, dependencies, hsplit, hfront, hedge⟩
    refine ⟨front, edge, back, hsplit,
      (addDependency_eq_error_iff (mem_keys_of_foldlM hfront)).1 hedge, ?_⟩
    rintro before other after rfl fault hfault
    rw [List.foldlM_append, bind_eq_ok_iff] at hfront
    obtain ⟨added, hbefore, hafter⟩ := hfront
    have hother : addDependency nodePath paths added other = .error fault :=
      (addDependency_eq_error_iff (mem_keys_of_foldlM hbefore)).2 hfault
    rw [List.foldlM_cons, hother] at hafter
    cases hafter
  · rintro ⟨front, edge, back, hsplit, hfault, hfront⟩
    cases hrun : front.foldlM (addDependency nodePath paths) .empty with
    | ok dependencies =>
        exact ⟨front, edge, back, dependencies, hsplit, hrun,
          (addDependency_eq_error_iff (mem_keys_of_foldlM hrun)).2 hfault⟩
    | error fault =>
        obtain ⟨before, other, after, added, hsplit', hbefore, hother⟩ :=
          foldlM_eq_error_iff.1 hrun
        exact absurd ((addDependency_eq_error_iff (mem_keys_of_foldlM hbefore)).1 hother)
          (hfront before other after hsplit' fault)

/-! ### All edges together -/

theorem exists_resolveDependencies_eq_ok_iff :
    (∃ dependencies, resolveDependencies nodeId nodePath edges paths = .ok dependencies) ↔
      DependenciesResolve edges paths nodeId := by
  simp only [resolveDependencies_eq_ok_iff]
  exact ⟨fun ⟨_, h, _⟩ => h, fun h => ⟨_, h, rfl⟩⟩

theorem DependenciesResolve.of_perm (hperm : edges.Perm edges')
    (h : DependenciesResolve edges paths nodeId) : DependenciesResolve edges' paths nodeId := by
  have hactive : (activeEdges edges nodeId).Perm (activeEdges edges' nodeId) := hperm.filter _
  exact ⟨fun e he => h.resolvable e (hactive.mem_iff.2 he),
    (hactive.map _).nodup_iff.1 h.names_nodup⟩

/-- The order of the edges doesn't matter, as long as none has a fault. -/
theorem resolveDependencies_of_perm (hperm : edges.Perm edges') {dependencies : SortedMap String}
    (h : resolveDependencies nodeId nodePath edges paths = .ok dependencies) :
    resolveDependencies nodeId nodePath edges' paths = .ok dependencies := by
  rw [resolveDependencies_eq_ok_iff] at h ⊢
  obtain ⟨hresolve, rfl⟩ := h
  refine ⟨hresolve.of_perm hperm, SortedMap.ofList_eq_of_perm ((hperm.filter _).map _) ?_⟩
  rw [List.map_map]
  exact hresolve.keys_nodup nodePath

theorem Edge.IsResolvable.makes {edge : Edge} (h : edge.IsResolvable paths) :
    edge.Makes nodePath paths (edge.dependency nodePath paths) := by
  obtain ⟨target, htarget⟩ := h.placed
  exact ⟨h.dependencyName, target, htarget, by simp [Edge.dependency, htarget]⟩

/-- There is one entry for each edge, and it is the one that the edge makes. -/
theorem exists_entries_of_resolveDependencies {dependencies : SortedMap String}
    (h : resolveDependencies nodeId nodePath edges paths = .ok dependencies) :
    ∃ entries, dependencies.toList.Perm entries ∧
      List.Forall₂ (fun edge entry => edge.Makes nodePath paths entry) (activeEdges edges nodeId)
        entries := by
  obtain ⟨hresolve, rfl⟩ := resolveDependencies_eq_ok_iff.1 h
  refine ⟨_, toList_dependenciesOf_perm hresolve, ?_⟩
  rw [List.forall₂_map_right_iff, List.forall₂_same]
  exact fun edge hedge => (hresolve.resolvable edge hedge).makes

/-- From one directory of a graph the relative path leads to the other one. -/
theorem resolve_relative_of_resolvePaths {nodes : List Node} (h : resolvePaths nodes = .ok paths)
    {path target : String} (hpath : path ∈ paths.values) (htarget : target ∈ paths.values) :
    Path.resolve path (Path.relative path target) = target := by
  obtain ⟨id, hid⟩ := SortedMap.mem_values_iff.1 hpath
  obtain ⟨id', hid'⟩ := SortedMap.mem_values_iff.1 htarget
  obtain ⟨node, above, hlineage, hroot, _, rfl⟩ := exists_lineage_of_find? h hid
  obtain ⟨node', above', hlineage', hroot', _, rfl⟩ := exists_lineage_of_find? h hid'
  exact Path.resolve_relative (directoryParts_ne_nil hroot) (directoryParts_ne_nil hroot')
    (isPlain_of_resolvePaths h hlineage) (isPlain_of_resolvePaths h hlineage')

/-- Dependencies resolve exactly when every enabled edge of the node has a name and a target with a
directory, and no two have the same name.  Each then makes one entry, in whatever order the edges
are listed, and where directories are those of a graph the entry leads to that of the target.
Otherwise the first fault is reported. -/
theorem resolveDependencies_accountsForEdges (nodeId nodePath : String) (edges : List Edge)
    (paths : PathMap) :
    ((∃ dependencies, resolveDependencies nodeId nodePath edges paths = .ok dependencies) ↔
      DependenciesResolve edges paths nodeId) ∧
    (∀ dependencies, resolveDependencies nodeId nodePath edges paths = .ok dependencies →
      (∃ entries, dependencies.toList.Perm entries ∧
        List.Forall₂ (fun edge entry => edge.Makes nodePath paths entry)
          (activeEdges edges nodeId) entries) ∧
      (∀ edges', edges.Perm edges' →
        resolveDependencies nodeId nodePath edges' paths = .ok dependencies) ∧
      ∀ nodes, resolvePaths nodes = .ok paths → nodePath ∈ paths.values →
        ∀ edge ∈ activeEdges edges nodeId, ∃ name reference,
          edge.dependencyName = some name ∧ dependencies.find? name = some reference ∧
            paths.find? edge.target = some (Path.resolve nodePath reference)) ∧
    ∀ e, resolveDependencies nodeId nodePath edges paths = .error e ↔
      IsFirstFault paths (activeEdges edges nodeId) e := by
  refine ⟨exists_resolveDependencies_eq_ok_iff, fun dependencies h =>
    ⟨exists_entries_of_resolveDependencies h, fun edges' hperm =>
      resolveDependencies_of_perm hperm h, fun nodes hnodes hpath edge hedge => ?_⟩,
    fun e => resolveDependencies_eq_error_iff⟩
  obtain ⟨entries, hentries, hmakes⟩ := exists_entries_of_resolveDependencies h
  obtain ⟨⟨name, reference⟩, hentry, hname, target, htarget, rfl⟩ :=
    exists_mem_of_forall₂ hmakes hedge
  refine ⟨name, _, hname, SortedMap.mem_toList_iff.1 (hentries.mem_iff.2 hentry), ?_⟩
  have hback := resolve_relative_of_resolvePaths hnodes hpath
    (SortedMap.mem_values_iff.2 ⟨_, htarget⟩)
  rw [hback, htarget]

end Faults

/-! ### An edge with two faults -/

namespace TwoFaults

open NamelessNodes (node)

def nodes : List Node := [
  node .folder "live" none "live",
  node .folder "web" (some "live") "web",
  node .folder "database" (some "live") "database"
]

def paths : PathMap :=
  .ofList [("database", "live/database"), ("live", "live"), ("web", "live/web")]

/-- An edge without handles. -/
def edge (id source target : String) (name : Option String) (enabled : Bool) : Edge where
  id := id
  source := source
  target := target
  dependencyName := name
  enabled := enabled
  sourceHandle := none
  targetHandle := none

/-- One edge isn't enabled, one leaves another node, and two make dependencies. -/
def edges : List Edge := [
  edge "idle" "web" "gone" none false,
  edge "back" "database" "web" none true,
  edge "first" "web" "database" (some "database") true,
  edge "second" "web" "live" (some "top") true
]

def dependencies : SortedMap String :=
  .ofList [("database", "../database"), ("top", "..")]

/-- The name of the edge is taken, and its target is missing. -/
def faulty : Edge := edge "third" "web" "gone" (some "top") true

theorem resolvePaths_nodes : resolvePaths nodes = .ok paths := by
  rfl

theorem resolveDependencies_edges :
    resolveDependencies "web" "live/web" edges paths = .ok dependencies := by
  rfl

theorem resolveDependencies_faulty :
    resolveDependencies "web" "live/web" (edges ++ [faulty]) paths =
      .error (.unknownEdgeTarget "third" "gone") := by
  rfl

/-- Without the faulty edge the others resolve in any order, and their entries lead to the targets;
with it, the fault that is found first is reported. -/
theorem accountsForEdges : resolvePaths nodes = .ok paths ∧
    resolveDependencies "web" "live/web" edges.reverse paths = .ok dependencies ∧
    (∀ edge ∈ activeEdges edges "web", ∃ name reference,
      edge.dependencyName = some name ∧ dependencies.find? name = some reference ∧
        paths.find? edge.target = some (Path.resolve "live/web" reference)) ∧
    IsFirstFault paths (activeEdges (edges ++ [faulty]) "web")
      (.unknownEdgeTarget "third" "gone") := by
  obtain ⟨_, hok, _⟩ := resolveDependencies_accountsForEdges "web" "live/web" edges paths
  obtain ⟨_, hperm, hback⟩ := hok dependencies resolveDependencies_edges
  obtain ⟨_, _, herror⟩ :=
    resolveDependencies_accountsForEdges "web" "live/web" (edges ++ [faulty]) paths
  exact ⟨resolvePaths_nodes, hperm edges.reverse edges.reverse_perm.symm,
    hback nodes resolvePaths_nodes (by decide), (herror _).1 resolveDependencies_faulty⟩

end TwoFaults

end InfraGraph
