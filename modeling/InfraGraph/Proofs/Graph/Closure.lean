import InfraGraph.Proofs.Graph.Paths

/-!
# Directories lie in directories

Where ids are repeated, only the last lineage of an id keeps its directory.  Still no directory is
left without the one it lies in.  The walk goes on from a repeated id exactly as it went on from its
first occurrence, so a lineage whose parent is replaced later on is replaced later on as well.
-/

namespace InfraGraph

section Blocks

variable {nodes : List Node}

theorem suffix_of_mem_lineagesBelow {depth : Nat} {above : List Node} {node : Node}
    {lineage : List Node} (h : lineage ∈ lineagesBelow nodes depth above node) :
    node :: above <:+ lineage := by
  induction depth generalizing above node with
  | zero =>
      obtain rfl := List.mem_singleton.1 h
      exact List.suffix_rfl
  | succ depth ih =>
      rcases List.mem_cons.1 h with rfl | h
      · exact List.suffix_rfl
      · obtain ⟨child, _, hmem⟩ := List.mem_flatMap.1 h
        exact (List.suffix_cons _ _).trans (ih hmem)

/-- A walk starts with the lineage it is at, and all others are longer. -/
theorem lineagesBelow_eq_cons (nodes : List Node) (depth : Nat) (above : List Node) (node : Node) :
    ∃ longer, lineagesBelow nodes depth above node = (node :: above) :: longer ∧
      ∀ lineage ∈ longer, ∃ child, child :: node :: above <:+ lineage := by
  cases depth with
  | zero => exact ⟨[], rfl, by simp⟩
  | succ depth =>
      refine ⟨_, rfl, fun lineage hlineage => ?_⟩
      obtain ⟨child, _, hmem⟩ := List.mem_flatMap.1 hlineage
      exact ⟨child, suffix_of_mem_lineagesBelow hmem⟩

theorem flatMap_eq_append_cons {α β : Type} {f : α → List β} {l : List α} {front back : List β}
    {b : β} (h : l.flatMap f = front ++ b :: back) :
    ∃ before a after xs ys, l = before ++ a :: after ∧ f a = xs ++ b :: ys ∧
      front = before.flatMap f ++ xs ∧ back = ys ++ after.flatMap f := by
  induction l generalizing front with
  | nil => simp at h
  | cons a l ih =>
      rw [List.flatMap_cons] at h
      rcases List.append_eq_append_iff.1 h with ⟨rest, hfront, hrest⟩ | ⟨rest, ha, hrest⟩
      · obtain ⟨before, a', after, xs, ys, rfl, ha', rfl, rfl⟩ := ih hrest
        exact ⟨a :: before, a', after, xs, ys, rfl, ha', by simp [hfront], rfl⟩
      · cases rest with
        | nil =>
            have hrest' : l.flatMap f = [] ++ b :: back := hrest.symm
            obtain ⟨before, a', after, xs, ys, rfl, ha', hxs, rfl⟩ := ih hrest'
            rw [List.append_nil] at ha
            refine ⟨a :: before, a', after, xs, ys, rfl, ha', ?_, rfl⟩
            rw [List.flatMap_cons, List.append_assoc, ← hxs, List.append_nil, ha]
        | cons b' rest =>
            obtain ⟨rfl, rfl⟩ := List.cons.inj hrest
            exact ⟨[], a, l, front, rest, rfl, ha, by simp, rfl⟩

/-- Around every lineage that the walk meets, all that lies below one of its nodes is met at a
stretch. -/
theorem exists_block {depth : Nat} {above children : List Node} {front back : List (List Node)}
    {lineage : List Node} {node : Node} {rest : List Node}
    (h : children.flatMap (lineagesBelow nodes depth above) = front ++ lineage :: back)
    (hsuffix : node :: rest <:+ lineage) (hlength : above.length ≤ rest.length) :
    ∃ before after xs ys below, rest.length + below = above.length + depth ∧
      lineagesBelow nodes below rest node = xs ++ lineage :: ys ∧
      front = before ++ xs ∧ back = ys ++ after := by
  induction depth generalizing above children front back with
  | zero =>
      obtain ⟨before, child, after, xs, ys, rfl, hblock, rfl, rfl⟩ := flatMap_eq_append_cons h
      have hmem : lineage ∈ lineagesBelow nodes 0 above child := by simp [hblock]
      obtain rfl := List.mem_singleton.1 hmem
      have hcons := hsuffix.eq_of_length_le (by simpa using hlength)
      obtain ⟨rfl, rfl⟩ := List.cons.inj hcons
      exact ⟨_, _, xs, ys, 0, rfl, hblock, rfl, rfl⟩
  | succ depth ih =>
      obtain ⟨before, child, after, xs, ys, rfl, hblock, rfl, rfl⟩ := flatMap_eq_append_cons h
      have hmem : lineage ∈ lineagesBelow nodes (depth + 1) above child := by simp [hblock]
      have hchild : child :: above <:+ lineage := suffix_of_mem_lineagesBelow hmem
      by_cases hsame : above.length = rest.length
      · have hcons : node :: rest = child :: above :=
          (List.suffix_of_suffix_length_le hsuffix hchild (by simp [hsame])).eq_of_length
            (by simp [hsame])
        obtain ⟨rfl, rfl⟩ := List.cons.inj hcons
        exact ⟨_, _, xs, ys, depth + 1, rfl, hblock, rfl, rfl⟩
      · cases xs with
        | nil =>
            obtain ⟨rfl, _⟩ := List.cons.inj hblock
            have := hsuffix.length_le
            simp only [List.length_cons] at this
            omega
        | cons first xs =>
            obtain ⟨_, hbelow⟩ := List.cons.inj hblock
            have hlonger : (child :: above).length ≤ rest.length := by
              simp only [List.length_cons]
              omega
            obtain ⟨before', after', xs', ys', below, hdepth, hinner, rfl, rfl⟩ :=
              ih hbelow hlonger
            refine ⟨before.flatMap (lineagesBelow nodes (depth + 1) above) ++ first :: before',
              after' ++ after.flatMap (lineagesBelow nodes (depth + 1) above), xs', ys', below, ?_,
              hinner, by simp, by simp⟩
            simp only [List.length_cons] at hdepth
            omega

end Blocks

/-! ### The last lineage of an id -/

/-- The id under which a lineage has its directory. -/
def lineageKey? : List Node → Option String
  | [] => none
  | node :: _ => if node.type = .root then none else some node.id

/-- No later lineage takes the place of this one. -/
def IsLastLineage (nodes lineage : List Node) : Prop :=
  ∃ front back, lineages nodes = front ++ lineage :: back ∧
    ∀ other ∈ back, lineageKey? other ≠ lineageKey? lineage

section Last

variable {nodes : List Node} {paths : PathMap}

theorem lineageKey?_eq_some_iff {lineage : List Node} {id : String} :
    lineageKey? lineage = some id ↔
      ∃ node above, lineage = node :: above ∧ node.type ≠ .root ∧ node.id = id := by
  cases lineage with
  | nil => simp [lineageKey?]
  | cons node above =>
      by_cases hroot : node.type = .root
      · simp only [lineageKey?, hroot, if_true, reduceCtorEq, false_iff]
        rintro ⟨_, _, hcons, hne, _⟩
        obtain ⟨rfl, rfl⟩ := List.cons.inj hcons
        exact hne hroot
      · simp only [lineageKey?, hroot, if_false, Option.some.injEq]
        constructor
        · rintro rfl
          exact ⟨node, above, rfl, hroot, rfl⟩
        · rintro ⟨_, _, hcons, _, rfl⟩
          obtain ⟨rfl, rfl⟩ := List.cons.inj hcons
          rfl

theorem lineageEntry_eq (lineage : List Node) :
    lineageEntry lineage =
      (lineageKey? lineage).toList.map fun id => (id, Path.unsplit (directoryParts lineage)) := by
  cases lineage with
  | nil => rfl
  | cons node above =>
      by_cases hroot : node.type = .root <;> simp [lineageEntry, lineageKey?, hroot]

/-- Of the lineages of an id, the last one is found. -/
theorem find?_resolvePaths_eq_some_iff (h : resolvePaths nodes = .ok paths) {id path : String} :
    paths.find? id = some path ↔
      ∃ lineage, IsLastLineage nodes lineage ∧ lineageKey? lineage = some id ∧
        path = Path.unsplit (directoryParts lineage) := by
  obtain ⟨_, rfl⟩ := resolvePaths_eq_ok_iff.1 h
  have hkeys (list : List (List Node)) : id ∉ (list.flatMap lineageEntry).map (·.1) ↔
      ∀ lineage ∈ list, lineageKey? lineage ≠ some id := by
    simp [lineageEntry_eq, List.mem_flatMap]
  rw [SortedMap.find?_ofList_eq_some_iff]
  constructor
  · rintro ⟨front, back, hsplit, hback⟩
    obtain ⟨before, lineage, after, xs, ys, hlineages, hentry, rfl, rfl⟩ :=
      flatMap_eq_append_cons hsplit
    rw [List.map_append, List.mem_append, not_or, hkeys] at hback
    have hmem : (id, path) ∈ lineageEntry lineage := by simp [hentry]
    simp only [lineageEntry_eq, List.mem_map, Option.mem_toList, Prod.mk.injEq] at hmem
    obtain ⟨_, hkey, rfl, rfl⟩ := hmem
    refine ⟨lineage, ⟨before, after, hlineages, ?_⟩, hkey, rfl⟩
    rw [hkey]
    exact hback.2
  · rintro ⟨lineage, ⟨before, after, hlineages, hafter⟩, hkey, rfl⟩
    refine ⟨before.flatMap lineageEntry, after.flatMap lineageEntry, ?_, ?_⟩
    · rw [hlineages, List.flatMap_append, List.flatMap_cons, lineageEntry_eq lineage, hkey]
      rfl
    · rw [hkeys, ← hkey]
      exact hafter

/-- The rest of a lineage may be exchanged for another one that starts with the same id. -/
theorem IsLineage.exchange {front rest rest' : List Node} {node node' : Node}
    (h : IsLineage nodes (front ++ node :: rest)) (h' : IsLineage nodes (node' :: rest'))
    (hid : node'.id = node.id) : IsLineage nodes (front ++ node' :: rest') := by
  induction front with
  | nil => exact h'
  | cons first front ih =>
      refine ⟨h.1, ?_, ih h.tail⟩
      have hparent : first.parentId = (front ++ node :: rest).head?.map (·.id) := h.2.1
      cases front with
      | nil => simpa [hid] using hparent
      | cons second front => simpa using hparent

/-- A lineage that goes on below another one comes behind it. -/
theorem mem_of_lineages_eq (hbound : ∀ lineage, IsLineage nodes lineage →
    lineage.length ≤ nodes.length) {before after : List (List Node)} {path rest : List Node}
    {node : Node} (hsplit : lineages nodes = before ++ (node :: rest) :: after)
    (h : IsLineage nodes (path ++ node :: rest)) (hrest : IsLineage nodes (node :: rest)) :
    path ++ node :: rest ∈ (node :: rest) :: after := by
  obtain ⟨_, after', xs, ys, below, hdepth, hblock, _, rfl⟩ :=
    exists_block hsplit List.suffix_rfl (Nat.zero_le _)
  obtain ⟨longer, hcons, hlonger⟩ := lineagesBelow_eq_cons nodes below rest node
  have hmem : path ++ node :: rest ∈ lineagesBelow nodes below rest node := by
    rw [mem_lineagesBelow hrest]
    have hlength := hbound _ h
    simp only [List.length_nil, Nat.zero_add] at hdepth
    exact ⟨h, List.suffix_append _ _, by omega⟩
  -- The stretch starts with the lineage itself, since all others in it are longer.
  rw [hcons] at hblock
  cases xs with
  | nil =>
      obtain ⟨_, htail⟩ := List.cons.inj hblock
      rw [hcons, htail, List.mem_cons] at hmem
      rcases hmem with heq | hmem
      · rw [heq]
        exact List.mem_cons_self
      · exact List.mem_cons_of_mem _ (List.mem_append_left _ hmem)
  | cons first xs =>
      obtain ⟨_, htail⟩ := List.cons.inj hblock
      obtain ⟨child, hchild⟩ := hlonger (node :: rest) (by rw [htail]; simp)
      have hlength := hchild.length_le
      simp only [List.length_cons] at hlength
      omega

/-- Where lineages are bounded, the last lineage of an id goes through last lineages only. -/
theorem IsLastLineage.of_suffix (hbound : ∀ lineage, IsLineage nodes lineage →
    lineage.length ≤ nodes.length) {lineage rest : List Node} {node : Node}
    (h : IsLastLineage nodes lineage) (hsuffix : node :: rest <:+ lineage)
    (hroot : node.type ≠ .root) : IsLastLineage nodes (node :: rest) := by
  obtain ⟨front, back, hsplit, hback⟩ := h
  have hmeet : ∀ other ∈ lineages nodes, IsLineage nodes other := fun other hother =>
    (mem_lineages.1 hother).1
  have hlineage : IsLineage nodes lineage := hmeet lineage (by simp [hsplit])
  obtain ⟨before, after, xs, ys, below, _, hblock, rfl, rfl⟩ :=
    exists_block hsplit hsuffix (Nat.zero_le _)
  obtain ⟨longer, hcons, hlonger⟩ := lineagesBelow_eq_cons nodes below rest node
  have hwhole : lineages nodes = before ++ (node :: rest) :: (longer ++ after) := by
    rw [hsplit]
    calc before ++ xs ++ lineage :: (ys ++ after)
        = before ++ (xs ++ lineage :: ys) ++ after := by simp
      _ = before ++ (node :: rest) :: (longer ++ after) := by rw [← hblock, hcons]; simp
  refine ⟨before, longer ++ after, hwhole, fun other hother hsame => ?_⟩
  have hother' : IsLineage nodes other := hmeet other (by
    rw [hwhole]
    exact List.mem_append_right _ (List.mem_cons_of_mem _ hother))
  have hnode : lineageKey? (node :: rest) = some node.id := by simp [lineageKey?, hroot]
  obtain ⟨node', rest', rfl, hroot', hid⟩ := lineageKey?_eq_some_iff.1 (hsame.trans hnode)
  rcases List.mem_append.1 hother with hmem | hmem
  · -- Below the node its id can't come again.
    obtain ⟨child, hchild⟩ := hlonger _ hmem
    have hnodup := IsLineage.ids_nodup hbound hother'
    have hinside : node ∈ rest' := by
      have htail : node :: rest <:+ rest' := by
        rcases List.suffix_cons_iff.1 hchild with heq | htail
        · exact (List.cons.inj heq).2 ▸ List.suffix_rfl
        · exact (List.suffix_cons _ _).trans htail
      exact htail.subset List.mem_cons_self
    rw [List.map_cons, List.nodup_cons] at hnodup
    exact hnodup.1 (List.mem_map.2 ⟨node, hinside, hid.symm⟩)
  · -- Behind the node, what lies below the other one would come later than the lineage.
    obtain ⟨before', after', hafter⟩ := List.append_of_mem hmem
    have hsplit' : lineages nodes =
        (before ++ (node :: rest) :: (longer ++ before')) ++ (node' :: rest') :: after' := by
      rw [hwhole, hafter]
      simp
    obtain ⟨path, rfl⟩ := hsuffix
    have hexchanged : IsLineage nodes (path ++ node' :: rest') := hlineage.exchange hother' hid
    have hlater : path ++ node' :: rest' ∈ ys ++ after := by
      have hbehind := mem_of_lineages_eq hbound hsplit' hexchanged hother'
      rw [hafter]
      exact List.mem_append_right _ (List.mem_append_right _ hbehind)
    refine hback _ hlater ?_
    cases path with
    | nil => exact hsame
    | cons first path => rfl

/-- The directories above the directory of a lineage are those of nodes in it. -/
theorem exists_suffix_of_directoryParts {lineage : List Node} {front back : List String}
    (hne : front ≠ []) (h : directoryParts lineage = front ++ back) :
    ∃ node rest, node :: rest <:+ lineage ∧ node.type ≠ .root ∧
      directoryParts (node :: rest) = front := by
  induction lineage generalizing back with
  | nil => exact absurd (List.append_eq_nil_iff.1 h.symm).1 hne
  | cons first above ih =>
      by_cases hroot : first.type = .root
      · rw [directoryParts_of_root hroot] at h
        obtain ⟨node, rest, hsuffix, hnode⟩ := ih h
        exact ⟨node, rest, hsuffix.trans (List.suffix_cons _ _), hnode⟩
      · rcases List.eq_nil_or_concat' back with rfl | ⟨back, name, rfl⟩
        · rw [List.append_nil] at h
          exact ⟨first, above, List.suffix_rfl, hroot, h⟩
        · rw [directoryParts_of_ne_root hroot, ← List.append_assoc] at h
          obtain ⟨habove, _⟩ := List.append_inj' h rfl
          obtain ⟨node, rest, hsuffix, hnode⟩ := ih habove
          exact ⟨node, rest, hsuffix.trans (List.suffix_cons _ _), hnode⟩

/-- If a directory belongs to a node, then so does every directory that leads to it. -/
theorem mem_values_of_append (h : resolvePaths nodes = .ok paths) {front back : List String}
    (hne : front ≠ []) (hplain : ∀ part ∈ front ++ back, Path.IsPlain part)
    (hmem : Path.unsplit (front ++ back) ∈ paths.values) : Path.unsplit front ∈ paths.values := by
  have hbound : ∀ lineage, IsLineage nodes lineage → lineage.length ≤ nodes.length :=
    fun lineage hlineage =>
      (forall_isPlaceable_iff.1 (resolvePaths_eq_ok_iff.1 h).1 lineage hlineage).1
  obtain ⟨id, hfind⟩ := SortedMap.mem_values_iff.1 hmem
  obtain ⟨lineage, hlast, _, hpath⟩ := (find?_resolvePaths_eq_some_iff h).1 hfind
  have hlineage : IsLineage nodes lineage := by
    obtain ⟨before, after, hsplit, _⟩ := hlast
    exact (mem_lineages.1 (by rw [hsplit]; simp)).1
  have hparts : directoryParts lineage = front ++ back :=
    Path.unsplit_inj (isPlain_of_resolvePaths h hlineage) hplain hpath.symm
  obtain ⟨node, rest, hsuffix, hroot, rfl⟩ := exists_suffix_of_directoryParts hne hparts
  refine SortedMap.mem_values_iff.2 ⟨node.id, (find?_resolvePaths_eq_some_iff h).2 ?_⟩
  exact ⟨node :: rest, hlast.of_suffix hbound hsuffix hroot, by simp [lineageKey?, hroot], rfl⟩

end Last

end InfraGraph
