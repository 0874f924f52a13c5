import InfraGraph.Proofs.Import.Reconstruct

/-!
# Edges of imported graphs

Every dependency of a scan makes one edge between two nodes of the scan.  The id of an edge is put
together from those of its nodes, with the name of the dependency behind it if that id is taken.
Where ids of nodes have no underscores the nodes can be read off again, and where the dependencies
of a node have different names no id is made twice.
-/

namespace InfraGraph

/-! ### Ids of edges -/

/-- The id of an edge between two nodes, as long as it is the only one. -/
def edgeStem (source target : String) : String :=
  "edge-" ++ source ++ "_out-" ++ target ++ "_in"

/-- Where a list ends at the first occurrence of a mark, it can be read off. -/
theorem append_mark_inj {α : Type} {mark : α} {a b rest rest' : List α} (ha : mark ∉ a)
    (hb : mark ∉ b) (h : a ++ mark :: rest = b ++ mark :: rest') : a = b ∧ rest = rest' := by
  induction a generalizing b with
  | nil =>
      cases b with
      | nil => exact ⟨rfl, (List.cons.inj h).2⟩
      | cons y b => exact absurd (List.mem_cons.2 (.inl (List.cons.inj h).1)) hb
  | cons x a ih =>
      cases b with
      | nil => exact absurd (List.mem_cons.2 (.inl (List.cons.inj h).1.symm)) ha
      | cons y b =>
          obtain ⟨rfl, htail⟩ := List.cons.inj h
          obtain ⟨rfl, hrest⟩ := ih (fun hmem => ha (List.mem_cons_of_mem _ hmem))
            (fun hmem => hb (List.mem_cons_of_mem _ hmem)) htail
          exact ⟨rfl, hrest⟩

/-- The nodes of an edge can be read off its id. -/
theorem edgeStem_append_inj {source target rest source' target' rest' : String}
    (hsource : '_' ∉ source.toList) (htarget : '_' ∉ target.toList)
    (hsource' : '_' ∉ source'.toList) (htarget' : '_' ∉ target'.toList)
    (h : edgeStem source target ++ rest = edgeStem source' target' ++ rest') :
    source = source' ∧ target = target' ∧ rest = rest' := by
  have hstem : ∀ source target rest : String, (edgeStem source target ++ rest).toList =
      "edge-".toList ++ (source.toList ++ '_' :: ("out-".toList ++
        (target.toList ++ '_' :: ("in".toList ++ rest.toList)))) := by
    intro source target rest
    simp [edgeStem]
  have hlists := congrArg String.toList h
  rw [hstem, hstem] at hlists
  obtain ⟨hs, hlists⟩ := append_mark_inj hsource hsource'
    (List.append_cancel_left hlists)
  obtain ⟨ht, hlists⟩ := append_mark_inj htarget htarget'
    (List.append_cancel_left hlists)
  exact ⟨String.toList_inj.1 hs, String.toList_inj.1 ht,
    String.toList_inj.1 (List.append_cancel_left hlists)⟩

/-- The id is one that an edge with the name between the two nodes can have. -/
structure IsEdgeId (source target name id : String) : Prop where
  plainSource : '_' ∉ source.toList
  plainTarget : '_' ∉ target.toList
  eq : id = edgeStem source target ∨ id = edgeStem source target ++ ("-" ++ name)

theorem isEdgeId_edgeId {taken : List String} {source target name : String}
    (hsource : '_' ∉ source.toList) (htarget : '_' ∉ target.toList) :
    IsEdgeId source target name (edgeId taken source target name) := by
  refine ⟨hsource, htarget, ?_⟩
  rw [edgeId, ← edgeStem]
  split
  · exact .inr String.append_assoc
  · exact .inl rfl

/-- The id of an edge is new, if no edge from the same node has the same name. -/
theorem edgeId_not_mem {taken : List String} {source target name : String}
    (hsource : '_' ∉ source.toList) (htarget : '_' ∉ target.toList)
    (htaken : ∀ id ∈ taken, ∃ source' target' name', IsEdgeId source' target' name' id ∧
      (source = source' → name ≠ name')) :
    edgeId taken source target name ∉ taken := by
  rw [edgeId, ← edgeStem]
  split
  · intro hmem
    obtain ⟨source', target', name', hid, hname⟩ := htaken _ hmem
    -- With a name behind it, the id is no shorter one, and the name is that of no other edge.
    rcases hid.eq with heq | heq
    · rw [String.append_assoc, ← String.append_empty (s := edgeStem source' target')] at heq
      have hrest := (edgeStem_append_inj hsource htarget hid.plainSource hid.plainTarget heq).2.2
      simp at hrest
    · rw [String.append_assoc] at heq
      obtain ⟨hs, _, hrest⟩ :=
        edgeStem_append_inj hsource htarget hid.plainSource hid.plainTarget heq
      exact hname hs (String.append_right_inj _ |>.1 hrest)
  · rename_i hnew
    simpa using hnew

/-! ### Dependencies and their edges -/

section Edges

variable {nodes : List ScannedNode} {taken : List String} {dependencies : List DependencyReference}
  {edges : List Edge}

theorem edgesOf_cons_eq_ok {d : DependencyReference}
    (h : edgesOf nodes taken (d :: dependencies) = .ok edges) :
    ∃ target rest, idAt? nodes d.target = some target ∧
      edgesOf nodes (edgeId taken d.sourceId target d.name :: taken) dependencies = .ok rest ∧
      edges = ⟨edgeId taken d.sourceId target d.name, d.sourceId, target, some d.name, true,
        some "out", some "in"⟩ :: rest := by
  rw [edgesOf] at h
  cases htarget : idAt? nodes d.target with
  | none =>
      rw [htarget] at h
      cases h
  | some target =>
      rw [htarget] at h
      obtain ⟨rest, hrest, hedges⟩ := map_eq_ok_iff.1 h
      exact ⟨target, rest, rfl, hrest, hedges.symm⟩

/-- Every dependency has become an edge to the node where it leads. -/
theorem forall₂_edgesOf (h : edgesOf nodes taken dependencies = .ok edges) :
    List.Forall₂ (fun (d : DependencyReference) edge =>
      edge.Says d.sourceId edge.target (some d.name) ∧
        idAt? nodes d.target = some edge.target) dependencies edges := by
  induction dependencies generalizing taken edges with
  | nil =>
      obtain rfl := Except.ok.inj h
      exact .nil
  | cons d dependencies ih =>
      obtain ⟨target, rest, htarget, hrest, rfl⟩ := edgesOf_cons_eq_ok h
      exact .cons ⟨⟨rfl, rfl, rfl, rfl⟩, htarget⟩ (ih hrest)

/-- Every edge comes from a dependency and leads to the node where that leads. -/
theorem exists_of_mem_edgesOf (h : edgesOf nodes taken dependencies = .ok edges) {edge : Edge}
    (hedge : edge ∈ edges) :
    ∃ d ∈ dependencies, edge.Says d.sourceId edge.target (some d.name) ∧
      ∃ n ∈ nodes, n.path = d.target ∧ n.node.id = edge.target := by
  obtain ⟨d, hd, hsaid, htarget⟩ := exists_mem_of_forall₂ (forall₂_edgesOf h).flip hedge
  exact ⟨d, hd, hsaid, exists_of_idAt?_eq_some htarget⟩

/-- No two dependencies of a node have the same name. -/
def NamesDiffer (dependencies : List DependencyReference) : Prop :=
  dependencies.Pairwise fun d d' => d.sourceId = d'.sourceId → d.name ≠ d'.name

/-- No two edges from the same node have the same name. -/
theorem pairwise_dependencyName_edgesOf (h : edgesOf nodes taken dependencies = .ok edges)
    (hnames : NamesDiffer dependencies) :
    edges.Pairwise fun edge edge' =>
      edge.source = edge'.source → edge.dependencyName ≠ edge'.dependencyName := by
  have htold : edges.map (fun edge => (edge.source, edge.dependencyName)) =
      dependencies.map fun d => (d.sourceId, some d.name) := by
    refine (map_eq_map_of_forall₂ ((forall₂_edgesOf h).imp fun d edge hedge => ?_)).symm
    rw [hedge.1.source, hedge.1.dependencyName]
  refine (List.pairwise_map (R := fun a b : String × Option String => a.1 = b.1 → a.2 ≠ b.2)
    (f := fun edge : Edge => (edge.source, edge.dependencyName))).1 ?_
  rw [htold]
  exact List.pairwise_map.2 (hnames.imp fun hname hsource heq =>
    hname hsource (Option.some.inj heq))

/-- Edges get ids that aren't taken, and that are different from each other. -/
theorem nodup_ids_edgesOf (h : edgesOf nodes taken dependencies = .ok edges)
    (hnodes : ∀ n ∈ nodes, '_' ∉ n.node.id.toList)
    (hsources : ∀ d ∈ dependencies, '_' ∉ d.sourceId.toList) (hnames : NamesDiffer dependencies)
    (htaken : ∀ id ∈ taken, ∃ source target name, IsEdgeId source target name id ∧
      ∀ d ∈ dependencies, d.sourceId = source → d.name ≠ name) :
    (edges.map (·.id)).Nodup ∧ ∀ edge ∈ edges, edge.id ∉ taken := by
  induction dependencies generalizing taken edges with
  | nil =>
      obtain rfl := Except.ok.inj h
      exact ⟨List.nodup_nil, by simp⟩
  | cons d dependencies ih =>
      obtain ⟨target, rest, htarget, hrest, rfl⟩ := edgesOf_cons_eq_ok h
      rw [List.forall_mem_cons] at hsources
      rw [NamesDiffer, List.pairwise_cons] at hnames
      have hplain : '_' ∉ target.toList := by
        obtain ⟨n, hn, _, rfl⟩ := exists_of_idAt?_eq_some htarget
        exact hnodes n hn
      have hown : IsEdgeId d.sourceId target d.name (edgeId taken d.sourceId target d.name) :=
        isEdgeId_edgeId hsources.1 hplain
      obtain ⟨hnodup, hfresh⟩ := ih hrest hsources.2 hnames.2 (by
        rw [List.forall_mem_cons]
        refine ⟨⟨_, _, _, hown, fun d' hd' hsource hname => ?_⟩, fun id hid => ?_⟩
        · exact hnames.1 d' hd' hsource.symm hname.symm
        · obtain ⟨source, target', name, hedge, hother⟩ := htaken id hid
          exact ⟨source, target', name, hedge, (List.forall_mem_cons.1 hother).2⟩)
      have hnew : edgeId taken d.sourceId target d.name ∉ taken := by
        refine edgeId_not_mem hsources.1 hplain fun id hid => ?_
        obtain ⟨source, target', name, hedge, hother⟩ := htaken id hid
        exact ⟨source, target', name, hedge, (List.forall_mem_cons.1 hother).1⟩
      rw [List.map_cons, List.nodup_cons, List.forall_mem_cons]
      refine ⟨⟨fun hmem => ?_, hnodup⟩, hnew, fun edge hedge htakes => ?_⟩
      · obtain ⟨edge, hedge, hid⟩ := List.mem_map.1 hmem
        exact hfresh edge hedge (List.mem_cons.2 (.inl hid))
      · exact hfresh edge hedge (List.mem_cons_of_mem _ htakes)

end Edges

end InfraGraph
