import InfraGraph.Proofs.Graph.Preorder

/-!
# Siblings

Two nodes are siblings if the nearest nodes above them that have directories are the same one, or if
both have none above them.  Nodes of type `root` don't count, so that the children of several of
them are siblings.  The directory of a node is that of the nearest node above it with its own label
behind, and no label holds a slash.  So all directories of a graph are different as soon as the
labels of siblings are, however deep the nodes lie.
-/

namespace InfraGraph

/-- Of the nodes above a node that have directories, this is the nearest one.  It is `none` where
the parents lead to the top without such a node. -/
def IsNearestAbove (nodes : List Node) (node : Node) (nearest : Option Node) : Prop :=
  ∃ above, IsLineage nodes (node :: above) ∧ above.find? (fun n => n.type ≠ .root) = nearest

/-- The directories of the nodes lie side by side. -/
def AreSiblings (nodes : List Node) (a b : Node) : Prop :=
  ∃ nearest, IsNearestAbove nodes a nearest ∧ IsNearestAbove nodes b nearest

section Siblings

variable {nodes : List Node} {node : Node} {above : List Node} {paths : PathMap}

/-! ### The nearest node with a directory -/

/-- Nodes without directories add nothing to the parts. -/
theorem directoryParts_append {front : List Node} (h : ∀ n ∈ front, n.type = .root)
    (above : List Node) : directoryParts (front ++ above) = directoryParts above := by
  induction front with
  | nil => rfl
  | cons first front ih =>
      rw [List.forall_mem_cons] at h
      rw [List.cons_append, directoryParts_of_root h.1, ih h.2]

theorem directoryParts_of_find?_eq_none (h : above.find? (fun n => n.type ≠ .root) = none) :
    directoryParts above = [] := by
  have hroots : ∀ n ∈ above, n.type = .root := by simpa using h
  have hparts := directoryParts_append hroots []
  rwa [List.append_nil] at hparts

/-- Up to the nearest node with a directory nothing is added to the parts. -/
theorem exists_suffix_of_find? (h : above.find? (fun n => n.type ≠ .root) = some node) :
    node.type ≠ .root ∧ ∃ rest, node :: rest <:+ above ∧
      directoryParts above = directoryParts (node :: rest) := by
  obtain ⟨hroot, front, rest, rfl, hfront⟩ := List.find?_eq_some_iff_append.1 h
  have hroots : ∀ n ∈ front, n.type = .root := by simpa using hfront
  exact ⟨by simpa using hroot, rest, List.suffix_append _ _, directoryParts_append hroots _⟩

/-- Where two nodes have directories in the same one, the nearest nodes above them with directories
are the same, if no two nodes share that directory. -/
theorem find?_eq_of_directoryParts_eq {above' : List Node} (habove : IsLineage nodes above)
    (habove' : IsLineage nodes above')
    (hsame : ∀ a b, a.type ≠ .root → b.type ≠ .root → LiesAt nodes a (directoryParts above) →
      LiesAt nodes b (directoryParts above) → a = b)
    (h : directoryParts above = directoryParts above') :
    above.find? (fun n => n.type ≠ .root) = above'.find? (fun n => n.type ≠ .root) := by
  cases hfind : above.find? (fun n => n.type ≠ .root) with
  | none =>
      rw [directoryParts_of_find?_eq_none hfind] at h
      cases hfind' : above'.find? (fun n => n.type ≠ .root) with
      | none => rfl
      | some nearest' =>
          obtain ⟨hroot', rest', _, hparts'⟩ := exists_suffix_of_find? hfind'
          exact absurd (h.trans hparts').symm (directoryParts_ne_nil hroot')
  | some nearest =>
      obtain ⟨hroot, rest, hsuffix, hparts⟩ := exists_suffix_of_find? hfind
      cases hfind' : above'.find? (fun n => n.type ≠ .root) with
      | none =>
          rw [directoryParts_of_find?_eq_none hfind'] at h
          exact absurd (hparts.symm.trans h) (directoryParts_ne_nil hroot)
      | some nearest' =>
          obtain ⟨hroot', rest', hsuffix', hparts'⟩ := exists_suffix_of_find? hfind'
          have hlies : LiesAt nodes nearest (directoryParts above) :=
            ⟨rest, habove.of_suffix hsuffix, hparts.symm⟩
          have hlies' : LiesAt nodes nearest' (directoryParts above) :=
            ⟨rest', habove'.of_suffix hsuffix', (h.trans hparts').symm⟩
          rw [hsame nearest nearest' hroot hroot' hlies hlies']

/-! ### From siblings to all nodes -/

/-- Siblings with the same label lie in the same directory. -/
theorem LiesAt.of_areSiblings (hids : DistinctIds nodes) {a b : Node} {parts : List String}
    (ha : a.type ≠ .root) (hb : b.type ≠ .root) (hlies : LiesAt nodes a parts)
    (hsiblings : AreSiblings nodes a b)
    (hlabel : sanitizeLabel a.label = sanitizeLabel b.label) : LiesAt nodes b parts := by
  obtain ⟨nearest, ⟨above, hlineage, hnearest⟩, above', hlineage', hnearest'⟩ := hsiblings
  obtain rfl := hlies.unique hids ⟨above, hlineage, rfl⟩
  refine ⟨above', hlineage', ?_⟩
  have hparts : directoryParts above' = directoryParts above := by
    cases nearest with
    | none =>
        rw [directoryParts_of_find?_eq_none hnearest, directoryParts_of_find?_eq_none hnearest']
    | some nearest =>
        obtain ⟨_, rest, hsuffix, hrest⟩ := exists_suffix_of_find? hnearest
        obtain ⟨_, rest', hsuffix', hrest'⟩ := exists_suffix_of_find? hnearest'
        have htail : rest = rest' := IsLineage.tail_unique hids
          (hlineage.tail.of_suffix hsuffix) (hlineage'.tail.of_suffix hsuffix')
        rw [hrest, hrest', htail]
  rw [directoryParts_of_ne_root ha, directoryParts_of_ne_root hb, hparts, hlabel]

/-- Nodes in the same directory are the same node, if siblings with the same label are. -/
theorem eq_of_liesAt
    (hsiblings : ∀ a b, a.type ≠ .root → b.type ≠ .root → AreSiblings nodes a b →
      sanitizeLabel a.label = sanitizeLabel b.label → a = b)
    {a b : Node} (ha : a.type ≠ .root) (hb : b.type ≠ .root) {parts : List String}
    (hlies : LiesAt nodes a parts) (hlies' : LiesAt nodes b parts) : a = b := by
  -- The nearest nodes above have one part less, which is the same for both.
  induction parts using List.reverseRecOn generalizing a b with
  | nil =>
      obtain ⟨above, _, hparts⟩ := hlies
      exact absurd hparts (directoryParts_ne_nil ha)
  | append_singleton front last ih =>
      obtain ⟨above, hlineage, hparts⟩ := hlies
      obtain ⟨above', hlineage', hparts'⟩ := hlies'
      rw [directoryParts_of_ne_root ha] at hparts
      rw [directoryParts_of_ne_root hb] at hparts'
      obtain ⟨hfront, hlabel⟩ := List.append_inj' hparts rfl
      obtain ⟨hfront', hlabel'⟩ := List.append_inj' hparts' rfl
      have hnearest := find?_eq_of_directoryParts_eq hlineage.tail hlineage'.tail
        (fun a b ha hb hlies hlies' => ih ha hb (hfront ▸ hlies) (hfront ▸ hlies'))
        (hfront.trans hfront'.symm)
      refine hsiblings a b ha hb ⟨_, ⟨above, hlineage, rfl⟩, above', hlineage', hnearest.symm⟩ ?_
      rw [List.singleton_inj.1 hlabel, List.singleton_inj.1 hlabel']

theorem mem_keys_resolvePaths (hids : DistinctIds nodes) (h : resolvePaths nodes = .ok paths)
    (hnode : node ∈ nodes) :
    node.id ∈ paths.keys ↔ node.type ≠ .root ∧ ∃ parts, LiesAt nodes node parts := by
  rw [SortedMap.mem_keys_iff]
  constructor
  · rintro ⟨path, hfind⟩
    obtain ⟨placed, parts, hroot, hid, hlies, _⟩ := (find?_resolvePaths hids h).1 hfind
    obtain rfl := hids.eq_of_id_eq hlies.mem hnode hid
    exact ⟨hroot, parts, hlies⟩
  · rintro ⟨hroot, parts, hlies⟩
    exact ⟨_, (find?_resolvePaths hids h).2 ⟨node, parts, hroot, rfl, hlies, rfl⟩⟩

/-- Siblings have labels that make different names, where no two nodes share a directory. -/
theorem sanitizeLabel_ne_of_values_nodup (hids : DistinctIds nodes)
    (h : resolvePaths nodes = .ok paths) (hvalues : paths.values.Nodup) {a b : Node}
    (ha : a ∈ nodes) (hb : b ∈ nodes) (hplaced : a.id ∈ paths.keys) (hplaced' : b.id ∈ paths.keys)
    (hne : a ≠ b) (hsiblings : AreSiblings nodes a b) :
    sanitizeLabel a.label ≠ sanitizeLabel b.label := by
  intro hlabel
  obtain ⟨hroot, parts, hlies⟩ := (mem_keys_resolvePaths hids h ha).1 hplaced
  obtain ⟨hroot', _⟩ := (mem_keys_resolvePaths hids h hb).1 hplaced'
  have hlies' := hlies.of_areSiblings hids hroot hroot' hsiblings hlabel
  have hfind := (find?_resolvePaths hids h).2 ⟨a, parts, hroot, rfl, hlies, rfl⟩
  have hfind' := (find?_resolvePaths hids h).2 ⟨b, parts, hroot', rfl, hlies', rfl⟩
  exact hne (hids.eq_of_id_eq ha hb (SortedMap.values_nodup_iff.1 hvalues _ _ _ hfind hfind'))

/-- Where siblings have labels that make different names, no two nodes share a directory. -/
theorem values_nodup_of_sanitizeLabel_ne (hids : DistinctIds nodes)
    (h : resolvePaths nodes = .ok paths)
    (hdiffer : ∀ a ∈ nodes, ∀ b ∈ nodes, a.id ∈ paths.keys → b.id ∈ paths.keys → a ≠ b →
      AreSiblings nodes a b → sanitizeLabel a.label ≠ sanitizeLabel b.label) :
    paths.values.Nodup := by
  rw [SortedMap.values_nodup_iff]
  intro first second path hfirst hsecond
  obtain ⟨a, above, hlineage, hroot, rfl, hpath⟩ := exists_lineage_of_find? h hfirst
  obtain ⟨b, above', hlineage', hroot', rfl, hpath'⟩ := exists_lineage_of_find? h hsecond
  have hparts := Path.unsplit_inj (isPlain_of_resolvePaths h hlineage)
    (isPlain_of_resolvePaths h hlineage') (hpath.symm.trans hpath')
  refine congrArg Node.id (eq_of_liesAt (fun a b ha hb hsiblings hlabel => ?_) hroot hroot'
    ⟨above, hlineage, rfl⟩ ⟨above', hlineage', hparts.symm⟩)
  by_contra hne
  obtain ⟨_, ⟨above, hlineage, _⟩, above', hlineage', _⟩ := id hsiblings
  exact hdiffer a hlineage.1 b hlineage'.1
    ((mem_keys_resolvePaths hids h hlineage.1).2 ⟨ha, _, above, hlineage, rfl⟩)
    ((mem_keys_resolvePaths hids h hlineage'.1).2 ⟨hb, _, above', hlineage', rfl⟩)
    hne hsiblings hlabel

/-- Where directories are resolved, no two nodes share one exactly when siblings have labels that
make different names.  Otherwise the failure names two nodes and the directory that they share. -/
theorem ensureUnique_iff_siblingsDiffer (hids : DistinctIds nodes)
    (h : resolvePaths nodes = .ok paths) :
    (ensureUnique paths = .ok () ↔
      ∀ a ∈ nodes, ∀ b ∈ nodes, a.id ∈ paths.keys → b.id ∈ paths.keys → a ≠ b →
        AreSiblings nodes a b → sanitizeLabel a.label ≠ sanitizeLabel b.label) ∧
      ∀ e, ensureUnique paths = .error e → ∃ path first second,
        e = .pathCollision path first second ∧ first ≠ second ∧
          paths.find? first = some path ∧ paths.find? second = some path := by
  constructor
  · rw [ensureUnique_eq_ok_iff]
    exact ⟨fun hvalues a ha b hb => sanitizeLabel_ne_of_values_nodup hids h hvalues ha hb,
      values_nodup_of_sanitizeLabel_ne hids h⟩
  · intro e he
    have hshared : ¬ paths.values.Nodup := by
      rw [← ensureUnique_eq_ok_iff, he]
      exact fun hok => by cases hok
    obtain ⟨path, first, second, herror, hne, hfirst, hsecond⟩ :=
      exists_pathCollision_of_ensureUnique hshared
    exact ⟨path, first, second, Except.error.inj (he.symm.trans herror), hne, hfirst, hsecond⟩

end Siblings

/-! ### Siblings with two parents -/

namespace TwoRoots

open NamelessNodes (node)

def web : Node := node .folder "web" (some "east") "we\"b"

def copy : Node := node .folder "copy" (some "west") "web"

/-- Two folders below different nodes without directories, and a folder inside the first one that
has the same label once more. -/
def nodes : List Node := [
  node .root "east" none "",
  node .root "west" none "",
  web,
  node .folder "inner" (some "web") "web",
  copy
]

def paths : PathMap :=
  .ofList [("copy", "web"), ("inner", "web/web"), ("web", "web")]

theorem distinctIds : DistinctIds nodes := by
  decide

theorem resolvePaths_nodes : resolvePaths nodes = .ok paths := by
  rfl

theorem areSiblings : AreSiblings nodes web copy := by
  refine ⟨none, ⟨[node .root "east" none ""], ?_, rfl⟩, [node .root "west" none ""], ?_, rfl⟩
  · simp [IsLineage, nodes, web, node]
  · simp [IsLineage, nodes, copy, node]

/-- The labels of the siblings make the same name, so the directories are refused. -/
theorem exists_pathCollision : DistinctIds nodes ∧ resolvePaths nodes = .ok paths ∧
    AreSiblings nodes web copy ∧ ∃ path first second,
      ensureUnique paths = .error (.pathCollision path first second) ∧ first ≠ second ∧
        paths.find? first = some path ∧ paths.find? second = some path := by
  refine ⟨distinctIds, resolvePaths_nodes, areSiblings, ?_⟩
  obtain ⟨hdiffer, hfails⟩ := ensureUnique_iff_siblingsDiffer distinctIds resolvePaths_nodes
  cases hunique : ensureUnique paths with
  | ok _ =>
      have hne : web ≠ copy := fun heq => absurd (congrArg Node.id heq) (by decide)
      have hlabels := hdiffer.1 hunique web (by simp [nodes]) copy (by simp [nodes]) (by decide)
        (by decide) hne areSiblings
      exact absurd (by decide) hlabels
  | error e =>
      obtain ⟨path, first, second, rfl, hshared⟩ := hfails e hunique
      exact ⟨path, first, second, rfl, hshared⟩

end TwoRoots

end InfraGraph
