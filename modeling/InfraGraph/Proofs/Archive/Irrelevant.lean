import Mathlib.Logic.Relation
import InfraGraph.Proofs.Archive.Twin

/-!
# Changes that an archive doesn't show

Edges that aren't enabled, and edges that start where nothing is generated, say nothing.  Neither do
the ids of edges, the places and extents of boxes, or nodes that hang nowhere.  A graph with an
archive keeps that very archive whatever happens to these.
-/

namespace InfraGraph

/-- The edge has no effect: it isn't enabled, or no node with a directory and a configuration file
has the id that it starts at. -/
def Edge.IsIdle (nodes : List Node) (edge : Edge) : Prop :=
  edge.enabled = false ∨
    ∀ node path, IsPlaced nodes node path → node.id = edge.source → node.type.hasOutput = false

/-- The edge between the same nodes, under another id and from one handle to another. -/
def Edge.redraw (edge : Edge) (id : String) (sourceHandle targetHandle : Option String) : Edge :=
  { edge with id := id, sourceHandle := sourceHandle, targetHandle := targetHandle }

/-- The node with its box elsewhere. -/
def Node.redraw (node : Node) (depth : Nat) (position : Position Float) (size : Size Float) :
    Node :=
  { node with depth := depth, position := position, size := size }

/-- One graph becomes the other one by a change that must not matter. -/
inductive Graph.IdleChange : Graph → Graph → Prop
  /-- Edges without effect are exchanged for other ones. -/
  | edges {nodes : List Node} (front old new back : List Edge) :
    (∀ edge ∈ old, edge.IsIdle nodes) → (∀ edge ∈ new, edge.IsIdle nodes) →
    IdleChange ⟨nodes, front ++ old ++ back⟩ ⟨nodes, front ++ new ++ back⟩
  | redrawEdge {nodes : List Node} (front back : List Edge) (edge : Edge) (id : String)
      (sourceHandle targetHandle : Option String) :
    IdleChange ⟨nodes, front ++ edge :: back⟩
      ⟨nodes, front ++ edge.redraw id sourceHandle targetHandle :: back⟩
  | redrawNode {edges : List Edge} (front back : List Node) (node : Node) (depth : Nat)
      (position : Position Float) (size : Size Float) :
    IdleChange ⟨front ++ node :: back, edges⟩
      ⟨front ++ node.redraw depth position size :: back, edges⟩
  /-- A node is added whose parents don't lead to the top. -/
  | addNode {edges : List Edge} (front back : List Node) (node : Node) :
    node.id ∉ (front ++ back).map (·.id) →
    (∀ parts, ¬ LiesAt (front ++ node :: back) node parts) →
    IdleChange ⟨front ++ back, edges⟩ ⟨front ++ node :: back, edges⟩

/-! ### Graphs that differ in nothing else -/

/-- The nodes are the same but for their boxes. -/
def Node.IsRedrawn (node twin : Node) : Prop :=
  ∃ depth position size, twin = node.redraw depth position size

/-- The nodes with directories are the same but for their boxes, and so are the ends of the edges
that have an effect. -/
structure Graph.IsRedrawn (g h : Graph) : Prop where
  distinctIds : DistinctIds g.nodes → DistinctIds h.nodes
  forth : ∀ {node path}, IsPlaced g.nodes node path →
    ∃ twin, node.IsRedrawn twin ∧ IsPlaced h.nodes twin path
  back : ∀ {twin path}, IsPlaced h.nodes twin path →
    ∃ node, node.IsRedrawn twin ∧ IsPlaced g.nodes node path
  ends : ∀ {node path}, IsPlaced g.nodes node path → node.type.hasOutput = true →
    (activeEdges h.edges node.id).map Edge.ends = (activeEdges g.edges node.id).map Edge.ends
  levels : LevelsComplete g.nodes → LevelsComplete h.nodes

namespace Node.IsRedrawn

variable {node twin : Node}

theorem refl (node : Node) : node.IsRedrawn node :=
  ⟨node.depth, node.position, node.size, rfl⟩

theorem symm (h : node.IsRedrawn twin) : twin.IsRedrawn node := by
  obtain ⟨_, _, _, rfl⟩ := h
  exact ⟨node.depth, node.position, node.size, rfl⟩

theorem id (h : node.IsRedrawn twin) : twin.id = node.id := by
  obtain ⟨_, _, _, rfl⟩ := h
  rfl

theorem type (h : node.IsRedrawn twin) : twin.type = node.type := by
  obtain ⟨_, _, _, rfl⟩ := h
  rfl

theorem keepsPlaces : KeepsPlaces Node.IsRedrawn := by
  refine ⟨fun h => h.type, ?_, ?_, fun h hparent hbelow => ?_⟩
  · rintro node _ ⟨_, _, _, rfl⟩
    rfl
  · rintro node _ ⟨_, _, _, rfl⟩ htop
    exact htop
  · rw [hparent.id, ← hbelow]
    obtain ⟨_, _, _, rfl⟩ := h
    rfl

end Node.IsRedrawn

namespace Graph.IsRedrawn

variable {g h : Graph}

/-- The directories of a target are the same in both graphs. -/
theorem directories_eq (hr : g.IsRedrawn h) (id : String) :
    {path | ∃ target, IsPlaced h.nodes target path ∧ target.id = id} =
      {path | ∃ target, IsPlaced g.nodes target path ∧ target.id = id} := by
  refine Set.ext fun path => ⟨?_, ?_⟩
  · rintro ⟨target, hplaced, hid⟩
    obtain ⟨node, hsame, hplaced'⟩ := hr.back hplaced
    exact ⟨node, hplaced', hsame.id.symm.trans hid⟩
  · rintro ⟨target, hplaced, hid⟩
    obtain ⟨twin, hsame, hplaced'⟩ := hr.forth hplaced
    exact ⟨twin, hplaced', hsame.id.trans hid⟩

/-- Edges with the same ends say the same. -/
theorem references_eq (hr : g.IsRedrawn h) {edges edges' : List Edge}
    (hends : edges'.map Edge.ends = edges.map Edge.ends) :
    edges'.map (Edge.reference h.nodes) = edges.map (Edge.reference g.nodes) := by
  have hof : ∀ nodes : List Node, Edge.reference nodes =
      (fun ends : String × String × Option String =>
        (ends.2.2, {path | ∃ target, IsPlaced nodes target path ∧ target.id = ends.2.1})) ∘
        Edge.ends := fun _ => rfl
  have hsame : Edge.reference h.nodes = Edge.reference g.nodes := by
    funext edge
    rw [Edge.reference, Edge.reference, hr.directories_eq]
  rw [hsame, hof, ← List.map_map, hends, List.map_map]

/-- A node with a directory, and what it became. -/
def Pairs (g h : Graph) (node twin : Node) : Prop :=
  ∃ path, IsPlaced g.nodes node path ∧ IsPlaced h.nodes twin path ∧ node.IsRedrawn twin

theorem isTwin (hr : g.IsRedrawn h) (hids : DistinctIds g.nodes)
    (hlevels : LevelsComplete g.nodes) : g.IsTwin (Pairs g h) h := by
  have hmem : ∀ {nodes : List Node} {node path}, IsPlaced nodes node path → node ∈ nodes := by
    rintro nodes node path ⟨_, parts, hlies, _⟩
    exact hlies.mem
  refine ⟨?_, fun hplaced => ?_, fun hplaced => ?_, ?_, ?_,
    ⟨fun _ => hr.levels hlevels, fun _ => hlevels⟩⟩
  · rintro node twin ⟨path, hplaced, _, hsame⟩
    have hreferences : node.type.hasOutput = true →
        (activeEdges h.edges twin.id).map (Edge.reference h.nodes) =
          (activeEdges g.edges node.id).map (Edge.reference g.nodes) := by
      intro houtput
      rw [hsame.id]
      exact hr.references_eq (hr.ends hplaced houtput)
    obtain ⟨_, _, _, rfl⟩ := hsame
    exact ⟨rfl, rfl, rfl, rfl, .refl _, fun houtput => .of_eq (hreferences houtput)⟩
  · obtain ⟨twin, hsame, hplaced'⟩ := hr.forth hplaced
    exact ⟨twin, ⟨_, hplaced, hplaced', hsame⟩, hplaced'⟩
  · obtain ⟨node, hsame, hplaced'⟩ := hr.back hplaced
    exact ⟨node, ⟨_, hplaced', hplaced, hsame⟩, hplaced'⟩
  · rintro node twin twin' ⟨_, _, hplaced, hsame⟩ ⟨_, _, hplaced', hsame'⟩
    exact (hr.distinctIds hids).eq_of_id_eq (hmem hplaced) (hmem hplaced')
      (hsame.id.trans hsame'.id.symm)
  · rintro node node' twin ⟨_, hplaced, _, hsame⟩ ⟨_, hplaced', _, hsame'⟩
    exact hids.eq_of_id_eq (hmem hplaced) (hmem hplaced') (hsame.id.symm.trans hsame'.id)

/-! ### Edges -/

variable {nodes : List Node} {front back : List Edge} {edges : List Edge}

/-- Only the edges changed, and those that have an effect have the same ends. -/
theorem of_ends {edges' : List Edge}
    (hends : ∀ node path, IsPlaced nodes node path → node.type.hasOutput = true →
      (activeEdges edges' node.id).map Edge.ends = (activeEdges edges node.id).map Edge.ends) :
    IsRedrawn ⟨nodes, edges⟩ ⟨nodes, edges'⟩ :=
  ⟨fun h => h, fun h => ⟨_, .refl _, h⟩, fun h => ⟨_, .refl _, h⟩, fun h => hends _ _ h,
    fun h => h⟩

theorem activeEdges_of_idle (hidle : ∀ edge ∈ edges, edge.IsIdle nodes) {node : Node}
    {path : String} (hplaced : IsPlaced nodes node path) (houtput : node.type.hasOutput = true) :
    activeEdges edges node.id = [] := by
  refine List.eq_nil_iff_forall_not_mem.2 fun edge hedge => ?_
  obtain ⟨hmem, hsource, henabled⟩ := mem_activeEdges.1 hedge
  rcases hidle edge hmem with hdisabled | hsilent
  · rw [henabled] at hdisabled
    exact Bool.noConfusion hdisabled
  · rw [hsilent node path hplaced hsource.symm] at houtput
    exact Bool.noConfusion houtput

theorem of_idle {old new : List Edge} (hold : ∀ edge ∈ old, edge.IsIdle nodes)
    (hnew : ∀ edge ∈ new, edge.IsIdle nodes) :
    IsRedrawn ⟨nodes, front ++ old ++ back⟩ ⟨nodes, front ++ new ++ back⟩ := by
  refine of_ends fun node path hplaced houtput => ?_
  have hnone : activeEdges old node.id = activeEdges new node.id := by
    rw [activeEdges_of_idle hold hplaced houtput, activeEdges_of_idle hnew hplaced houtput]
  simp only [activeEdges, List.filter_append] at hnone ⊢
  rw [hnone]

theorem of_redrawEdge (edge : Edge) (id : String) (sourceHandle targetHandle : Option String) :
    IsRedrawn ⟨nodes, front ++ edge :: back⟩
      ⟨nodes, front ++ edge.redraw id sourceHandle targetHandle :: back⟩ := by
  refine of_ends fun node _ _ _ => ?_
  have happend : ∀ es, activeEdges (front ++ es) node.id =
      activeEdges front node.id ++ activeEdges es node.id := fun es => List.filter_append ..
  rw [happend, happend, activeEdges_cons, activeEdges_cons]
  have hsame : ((edge.redraw id sourceHandle targetHandle).source = node.id ∧
      (edge.redraw id sourceHandle targetHandle).enabled = true) ↔
      (edge.source = node.id ∧ edge.enabled = true) := Iff.rfl
  by_cases hactive : edge.source = node.id ∧ edge.enabled = true
  · rw [if_pos hactive, if_pos (hsame.2 hactive), List.map_append, List.map_append]
    rfl
  · rw [if_neg hactive, if_neg (mt hsame.1 hactive)]

/-! ### Nodes -/

variable {before after : List Node}

theorem of_redrawNode (node : Node) (depth : Nat) (position : Position Float)
    (size : Size Float) :
    IsRedrawn ⟨before ++ node :: after, edges⟩
      ⟨before ++ node.redraw depth position size :: after, edges⟩ := by
  have hsame : List.Forall₂ Node.IsRedrawn (before ++ node :: after)
      (before ++ node.redraw depth position size :: after) :=
    List.rel_append (List.forall₂_same.2 fun n _ => .refl n)
      (.cons ⟨depth, position, size, rfl⟩ (List.forall₂_same.2 fun n _ => .refl n))
  have hflip := hsame.flip.imp fun _ _ => Node.IsRedrawn.symm
  refine ⟨fun hids => ?_, ?_, ?_, fun _ _ => rfl, fun hlevels type htype => ?_⟩
  · rw [DistinctIds, ← map_eq_map_of_forall₂ (hsame.imp fun _ _ h => h.id.symm)]
    exact hids
  · rintro n _ ⟨hroot, parts, hlies, rfl⟩
    obtain ⟨twin, htwin, hlies'⟩ := hlies.exists_copy Node.IsRedrawn.keepsPlaces
      fun n hn => exists_mem_of_forall₂ hsame hn
    exact ⟨twin, htwin, htwin.type ▸ hroot, parts, hlies', rfl⟩
  · rintro n _ ⟨hroot, parts, hlies, rfl⟩
    obtain ⟨twin, htwin, hlies'⟩ := hlies.exists_copy Node.IsRedrawn.keepsPlaces
      fun n hn => exists_mem_of_forall₂ hflip hn
    exact ⟨twin, htwin.symm, htwin.type ▸ hroot, parts, hlies', rfl⟩
  · obtain ⟨n, hn, rfl⟩ := hlevels type htype
    obtain ⟨twin, htwin, hredrawn⟩ := exists_mem_of_forall₂ hsame hn
    exact ⟨twin, htwin, hredrawn.type⟩

/-- A node that hangs nowhere is in no lineage. -/
theorem isLineage_add_iff {node : Node} {lineage : List Node}
    (hlost : ∀ parts, ¬ LiesAt (before ++ node :: after) node parts) :
    IsLineage (before ++ node :: after) lineage ↔ IsLineage (before ++ after) lineage := by
  refine ⟨fun h => h.of_subset fun n hn => ?_, fun h => h.of_subset fun n hn => ?_⟩
  · rcases List.mem_append.1 (h.subset hn) with hmem | hmem
    · exact List.mem_append_left _ hmem
    · rcases List.mem_cons.1 hmem with rfl | hmem
      · obtain ⟨front, above, rfl⟩ := List.append_of_mem hn
        exact absurd ⟨above, h.of_suffix ⟨front, rfl⟩, rfl⟩ (hlost _)
      · exact List.mem_append_right _ hmem
  · rcases List.mem_append.1 (h.subset hn) with hmem | hmem
    · exact List.mem_append_left _ hmem
    · exact List.mem_append_right _ (List.mem_cons_of_mem _ hmem)

theorem of_addNode {node : Node} (hfresh : node.id ∉ (before ++ after).map (·.id))
    (hlost : ∀ parts, ¬ LiesAt (before ++ node :: after) node parts) :
    IsRedrawn ⟨before ++ after, edges⟩ ⟨before ++ node :: after, edges⟩ := by
  have hplaced : ∀ {n path}, IsPlaced (before ++ node :: after) n path ↔
      IsPlaced (before ++ after) n path := by
    intro n path
    simp only [IsPlaced, LiesAt, isLineage_add_iff hlost]
  refine ⟨fun hids => ?_, fun h => ⟨_, .refl _, hplaced.2 h⟩, fun h => ⟨_, .refl _, hplaced.1 h⟩,
    fun _ _ => rfl, fun hlevels type htype => ?_⟩
  · have hperm : (node :: (before ++ after)).Perm (before ++ node :: after) :=
      List.perm_middle.symm
    rw [DistinctIds, ← (hperm.map _).nodup_iff]
    exact List.nodup_cons.2 ⟨hfresh, hids⟩
  · obtain ⟨n, hn, htype⟩ := hlevels type htype
    exact ⟨n, List.perm_middle.mem_iff.2 (List.mem_cons_of_mem _ hn), htype⟩

end Graph.IsRedrawn

theorem Graph.IdleChange.isRedrawn {g h : Graph} (hchange : g.IdleChange h) : g.IsRedrawn h := by
  cases hchange with
  | edges front old new back hold hnew => exact .of_idle hold hnew
  | redrawEdge front back edge => exact .of_redrawEdge ..
  | redrawNode front back node => exact .of_redrawNode ..
  | addNode front back node hfresh hlost => exact .of_addNode hfresh hlost

/-! ### The archive -/

section Archive

variable {σ : Type} [AttachmentStore σ] {store : σ} {moduleBase : String} {archive : Archive}
  {g h : Graph}

/-- One change leaves the archive as it is. -/
theorem Graph.IdleChange.ofGraph_eq_ok (hchange : g.IdleChange h) (hids : DistinctIds g.nodes)
    (harchive : Archive.ofGraph store moduleBase g = .ok archive) :
    Archive.ofGraph store moduleBase h = .ok archive := by
  have hcan := (Archive.exists_ofGraph_eq_ok_iff hids).1 ⟨archive, harchive⟩
  exact (hchange.isRedrawn.isTwin hids hcan.levels).ofGraph_eq_ok hids
    (hchange.isRedrawn.distinctIds hids) harchive

/-- Where ids are distinct, a graph that has an archive keeps it under any number of changes that
must not matter: to edges without effect, to what edges and nodes look like, and by nodes that hang
nowhere. -/
theorem ofGraph_eq_ok_of_idleChanges (hids : DistinctIds g.nodes)
    (hchanges : Relation.ReflTransGen Graph.IdleChange g h)
    (harchive : Archive.ofGraph store moduleBase g = .ok archive) :
    Archive.ofGraph store moduleBase h = .ok archive := by
  suffices hboth : DistinctIds h.nodes ∧ Archive.ofGraph store moduleBase h = .ok archive from
    hboth.2
  induction hchanges with
  | refl => exact ⟨hids, harchive⟩
  | tail _ hchange ih =>
      exact ⟨hchange.isRedrawn.distinctIds ih.1, hchange.ofGraph_eq_ok ih.1 ih.2⟩

end Archive

namespace TwoModules

/-- A node whose parent isn't there. -/
def stray : Node := nodeBelow (.remote "s3") (some "nowhere") "stray" []

/-- The graph with its first box elsewhere, its edge under another id, a node that hangs nowhere, an
edge from that one, and an edge that isn't enabled. -/
def redrawn : Graph where
  nodes := [account.redraw 1 ⟨20, 30⟩ ⟨200, 100⟩, environment, region, zone, tier, network,
    database, stray]
  edges := [⟨"f", "database", "network", some "vpc", true, some "out", some "in"⟩,
    ⟨"g", "stray", "nowhere", some "vpc", true, none, none⟩,
    ⟨"h", "database", "nowhere", none, false, none, none⟩]

theorem not_isPlaced_stray (path : String) : ¬ IsPlaced redrawn.nodes stray path := by
  rintro ⟨_, parts, hlies, _⟩
  exact not_liesAt_of_parentId rfl (by decide) parts hlies

theorem idleChanges_redrawn : Relation.ReflTransGen Graph.IdleChange graph redrawn := by
  have hadd : graph.IdleChange ⟨graph.nodes ++ [stray], graph.edges⟩ :=
    .addNode graph.nodes [] stray (by decide)
      (not_liesAt_of_parentId rfl (by decide))
  have hnode : Graph.IdleChange ⟨graph.nodes ++ [stray], graph.edges⟩
      ⟨redrawn.nodes, graph.edges⟩ := .redrawNode [] _ account ..
  have hedge : Graph.IdleChange ⟨redrawn.nodes, graph.edges⟩
      ⟨redrawn.nodes, redrawn.edges.take 1⟩ := .redrawEdge [] [] ..
  have hidle : Graph.IdleChange ⟨redrawn.nodes, redrawn.edges.take 1⟩ redrawn := by
    refine .edges (redrawn.edges.take 1) [] (redrawn.edges.drop 1) [] (by simp) fun edge hedge => ?_
    rcases List.mem_pair.1 hedge with rfl | rfl
    · refine .inr fun node path hplaced hid => ?_
      have hids : DistinctIds redrawn.nodes := by decide
      have hstray : stray ∈ redrawn.nodes := by simp [redrawn]
      obtain ⟨_, _, hlies, _⟩ := id hplaced
      obtain rfl : node = stray := hids.eq_of_id_eq hlies.mem hstray hid
      exact absurd hplaced (not_isPlaced_stray path)
    · exact .inl rfl
  exact .head hadd (.head hnode (.head hedge (.single hidle)))

/-- The graph keeps its archive. -/
theorem ofGraph_redrawn :
    DistinctIds graph.nodes ∧ Relation.ReflTransGen Graph.IdleChange graph redrawn ∧
      ∃ archive, Archive.ofGraph store ModuleSource.defaultBase graph = .ok archive ∧
        Archive.ofGraph store ModuleSource.defaultBase redrawn = .ok archive := by
  obtain ⟨archive, harchive⟩ := exists_archive ModuleSource.defaultBase
  exact ⟨distinctIds, idleChanges_redrawn, archive, harchive,
    ofGraph_eq_ok_of_idleChanges distinctIds idleChanges_redrawn harchive⟩

end TwoModules

end InfraGraph
