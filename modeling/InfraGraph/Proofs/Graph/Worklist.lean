import InfraGraph.Proofs.Graph.Closure

/-!
# The walk with a stack

Directories are resolved by a loop over a stack: the node on top is taken off, gets its directory,
and its children are put on top in its place.  Nothing bounds the loop but the parent relation.  It
follows ids, so where an id comes twice on a chain of parents the children of its first node are
those of the second one, and everything between the two is met again and again.

The loop ends exactly if the walk meets a node without usable label before it meets an id for the
second time on a chain.  Wherever it ends it gives what `resolvePaths` gives, and where ids are
distinct every node is taken off the stack at most once.
-/

namespace InfraGraph

/-- The loop over a stack of nodes with the directories they lie in.  `none` stands for a loop that
isn't over after taking off `pops` nodes. -/
def walk (nodes : List Node) :
    (pops : Nat) → (stack : List (Node × String)) → PathMap → Option (Except GraphError PathMap)
  | _, [], paths => some (.ok paths)
  | 0, _ :: _, _ => none
  | pops + 1, (node, above) :: stack, paths =>
    match node.place above with
    | .error e => some (.error e)
    | .ok (path, entry) =>
      walk nodes pops ((childrenOf nodes (some node.id)).map (·, path) ++ stack)
        (paths.insertAll entry)

/-- The loop from its start, where the nodes without parent are on the stack. -/
def walkFromTop (nodes : List Node) (pops : Nat) : Option (Except GraphError PathMap) :=
  walk nodes pops ((childrenOf nodes none).map (·, "")) .empty

/-- A value that comes twice comes again behind its first occurrence. -/
theorem exists_split_of_not_nodup_map {α β : Type} {f : α → β} {l : List α}
    (h : ¬ (l.map f).Nodup) : ∃ front a back, l = front ++ a :: back ∧ f a ∈ back.map f := by
  induction l with
  | nil => exact absurd List.nodup_nil h
  | cons a l ih =>
      by_cases hmem : f a ∈ l.map f
      · exact ⟨[], a, l, rfl, hmem⟩
      · rw [List.map_cons, List.nodup_cons, not_and] at h
        obtain ⟨front, b, back, rfl, hb⟩ := ih (h hmem)
        exact ⟨a :: front, b, back, rfl, hb⟩

section Walk

variable {nodes : List Node}

@[simp] theorem walk_nil (pops : Nat) (paths : PathMap) :
    walk nodes pops [] paths = some (.ok paths) := by
  cases pops <;> rfl

@[simp] theorem walk_zero_cons (top : Node × String) (stack : List (Node × String))
    (paths : PathMap) : walk nodes 0 (top :: stack) paths = none := rfl

theorem walk_cons_of_ok {node : Node} {above path : String} {entry : List (String × String)}
    (h : node.place above = .ok (path, entry)) (pops : Nat) (stack : List (Node × String))
    (paths : PathMap) :
    walk nodes (pops + 1) ((node, above) :: stack) paths =
      walk nodes pops ((childrenOf nodes (some node.id)).map (·, path) ++ stack)
        (paths.insertAll entry) := by
  rw [walk, h]

theorem walk_cons_of_error {node : Node} {above : String} {e : GraphError}
    (h : node.place above = .error e) (pops : Nat) (stack : List (Node × String))
    (paths : PathMap) : walk nodes (pops + 1) ((node, above) :: stack) paths = some (.error e) := by
  rw [walk, h]

/-- A loop that is over stays so. -/
theorem walk_add {pops : Nat} {stack : List (Node × String)} {paths : PathMap}
    {outcome : Except GraphError PathMap} (h : walk nodes pops stack paths = some outcome)
    (more : Nat) : walk nodes (pops + more) stack paths = some outcome := by
  induction pops generalizing stack paths with
  | zero =>
      cases stack with
      | nil => simpa using h
      | cons top stack => simp at h
  | succ pops ih =>
      rw [Nat.succ_add]
      cases stack with
      | nil => simpa using h
      | cons top stack =>
          obtain ⟨node, above⟩ := top
          cases hplace : node.place above with
          | error e => rwa [walk_cons_of_error hplace] at h ⊢
          | ok placed =>
              rw [walk_cons_of_ok hplace] at h ⊢
              exact ih h

theorem walk_outcome_unique {pops pops' : Nat} {stack : List (Node × String)} {paths : PathMap}
    {outcome outcome' : Except GraphError PathMap}
    (h : walk nodes pops stack paths = some outcome)
    (h' : walk nodes pops' stack paths = some outcome') : outcome = outcome' := by
  have hmore := walk_add h pops'
  rw [Nat.add_comm, walk_add h' pops, Option.some.injEq] at hmore
  exact hmore.symm

/-- If the loop comes to a place from which it doesn't end, it doesn't end. -/
theorem walk_eq_none_of_reaches {cost : Nat} {stack stack' : List (Node × String)}
    {paths paths' : PathMap}
    (hreach : ∀ pops, walk nodes (cost + pops) stack paths = walk nodes pops stack' paths')
    (hnone : ∀ pops, walk nodes pops stack' paths' = none) (pops : Nat) :
    walk nodes pops stack paths = none := by
  cases h : walk nodes pops stack paths with
  | none => rfl
  | some outcome =>
      have hmore := walk_add h cost
      rw [Nat.add_comm, hreach, hnone] at hmore
      cases hmore

/-! ### Subtrees that are placed -/

theorem exists_place_eq_ok {node : Node} (h : node.HasUsableLabel) (above : String) :
    ∃ path entry, node.place above = .ok (path, entry) := by
  unfold Node.place
  split
  · exact ⟨_, _, rfl⟩
  · rename_i hroot
    rw [if_pos (h.resolve_left hroot)]
    exact ⟨_, _, rfl⟩

/-- Siblings that are placed one by one are taken off the stack with everything below them. -/
theorem walk_children {depth : Nat} {path : String} {children above : List Node}
    {placed : List (List (String × String))}
    (hchild : ∀ child entries, placeBelow nodes depth path child = .ok entries →
      ∀ stack paths pops,
        walk nodes ((lineagesBelow nodes depth above child).length + pops)
            ((child, path) :: stack) paths =
          walk nodes pops stack (paths.insertAll entries))
    (h : children.mapM (placeBelow nodes depth path) = .ok placed)
    (stack : List (Node × String)) (paths : PathMap) (pops : Nat) :
    walk nodes ((children.flatMap (lineagesBelow nodes depth above)).length + pops)
        (children.map (·, path) ++ stack) paths =
      walk nodes pops stack (paths.insertAll placed.flatten) := by
  induction children generalizing placed paths with
  | nil =>
      obtain rfl := List.forall₂_nil_left_iff.1 (mapM_eq_ok_iff.1 h)
      rw [List.flatMap_nil, List.length_nil, Nat.zero_add]
      rfl
  | cons child children ih =>
      obtain ⟨entries, rest, hentries, hrest, rfl⟩ :=
        List.forall₂_cons_left_iff.1 (mapM_eq_ok_iff.1 h)
      rw [List.flatMap_cons, List.length_append, Nat.add_assoc, List.map_cons, List.cons_append,
        hchild child entries hentries, ih (mapM_eq_ok_iff.2 hrest), List.flatten_cons,
        SortedMap.insertAll_append]

/-- A subtree that can be placed is taken off the stack, one node for each of its lineages. -/
theorem walk_of_placeBelow_ok {depth : Nat} {node : Node} {path : String}
    {entries : List (String × String)} (h : placeBelow nodes depth path node = .ok entries)
    (above : List Node) (stack : List (Node × String)) (paths : PathMap) (pops : Nat) :
    walk nodes ((lineagesBelow nodes depth above node).length + pops) ((node, path) :: stack)
        paths =
      walk nodes pops stack (paths.insertAll entries) := by
  induction depth generalizing node path entries above stack paths pops with
  | zero => cases h
  | succ depth ih =>
      obtain ⟨⟨below, entry⟩, hplace, h⟩ := bind_eq_ok_iff.1 h
      obtain ⟨placed, hplaced, h⟩ := bind_eq_ok_iff.1 h
      obtain rfl := Except.ok.inj h
      rw [lineagesBelow, List.length_cons, Nat.add_right_comm, walk_cons_of_ok hplace,
        walk_children (fun child entries hentries => ih hentries (node :: above)) hplaced,
        SortedMap.insertAll_append]

/-- Siblings of which one has a node without usable label in its subtree end the loop. -/
theorem walk_children_error {depth : Nat} {path id : String} {children above : List Node}
    (hchild : ∀ child, placeBelow nodes depth path child = .error (.missingLabel id) →
      ∀ stack paths, walk nodes (lineagesBelow nodes depth above child).length
        ((child, path) :: stack) paths = some (.error (.missingLabel id)))
    (h : children.mapM (placeBelow nodes depth path) = .error (.missingLabel id))
    (stack : List (Node × String)) (paths : PathMap) :
    walk nodes (children.flatMap (lineagesBelow nodes depth above)).length
      (children.map (·, path) ++ stack) paths = some (.error (.missingLabel id)) := by
  obtain ⟨front, child, back, rfl, hfront, hfail⟩ := mapM_eq_error_iff.1 h
  obtain ⟨placed, hplaced⟩ := exists_mapM_eq_ok_iff.2 hfront
  rw [List.flatMap_append, List.length_append, List.map_append, List.append_assoc,
    walk_children (fun child entries hentries => walk_of_placeBelow_ok hentries above) hplaced,
    List.flatMap_cons, List.length_append]
  exact walk_add (hchild child hfail _ _) _

/-- A subtree with a node that has no usable label ends the loop. -/
theorem walk_of_placeBelow_error {depth : Nat} {node : Node} {path id : String}
    (h : placeBelow nodes depth path node = .error (.missingLabel id)) (above : List Node)
    (stack : List (Node × String)) (paths : PathMap) :
    walk nodes (lineagesBelow nodes depth above node).length ((node, path) :: stack) paths =
      some (.error (.missingLabel id)) := by
  induction depth generalizing node path above stack paths with
  | zero => cases h
  | succ depth ih =>
      rw [lineagesBelow, List.length_cons]
      rcases bind_eq_error_iff.1 h with hplace | ⟨⟨below, entry⟩, hplace, h⟩
      · exact walk_cons_of_error hplace _ _ _
      · obtain hmap | ⟨_, _, h⟩ := bind_eq_error_iff.1 h
        · rw [walk_cons_of_ok hplace]
          exact walk_children_error (fun child hchild => ih hchild (node :: above)) hmap _ _
        · cases h

/-- Where all lineages below a node can be placed, the node can be placed with what lies below
it. -/
theorem exists_placeBelow_eq_ok {depth : Nat} {above : List Node} {node : Node}
    (hdepth : above.length + depth = nodes.length)
    (h : ∀ lineage ∈ lineagesBelow nodes depth above node, IsPlaceable nodes lineage)
    (path : String) : ∃ entries, placeBelow nodes depth path node = .ok entries := by
  induction depth generalizing above node path with
  | zero =>
      have hlength := (h _ (List.mem_singleton.2 rfl)).1
      omega
  | succ depth ih =>
      rw [lineagesBelow, List.forall_mem_cons] at h
      obtain ⟨below, entry, hplace⟩ := exists_place_eq_ok h.1.2 path
      have hbelow : (node :: above).length + depth = nodes.length := by
        simp only [List.length_cons]
        omega
      obtain ⟨placed, hplaced⟩ := exists_mapM_eq_ok_iff.2 fun child hchild =>
        ih hbelow
          (fun lineage hlineage => h.2 lineage (List.mem_flatMap.2 ⟨child, hchild, hlineage⟩)) below
      exact ⟨_, bind_eq_ok_iff.2 ⟨_, hplace, bind_eq_ok_iff.2 ⟨_, hplaced, rfl⟩⟩⟩

/-! ### Going round -/

/-- With the children of an id on its stack, the loop comes to a node, wherever these children lie
and whatever else is on the stack. -/
def LeadsTo (nodes : List Node) (parent : Option String) (target : Node) : Prop :=
  ∀ path stack paths, ∃ path' stack' paths' cost, ∀ pops,
    walk nodes (cost + pops) ((childrenOf nodes parent).map (·, path) ++ stack) paths =
      walk nodes pops ((target, path') :: stack') paths'

theorem leadsTo_child {parent : Option String} {before after : List Node} {child : Node}
    {depth : Nat} (hsplit : childrenOf nodes parent = before ++ child :: after)
    (hbefore : ∀ sibling ∈ before, ∀ path, ∃ entries,
      placeBelow nodes depth path sibling = .ok entries) : LeadsTo nodes parent child := by
  intro path stack paths
  obtain ⟨placed, hplaced⟩ := exists_mapM_eq_ok_iff.2 fun sibling hsibling =>
    hbefore sibling hsibling path
  refine ⟨path, after.map (·, path) ++ stack, paths.insertAll placed.flatten,
    (before.flatMap (lineagesBelow nodes depth [])).length, fun pops => ?_⟩
  rw [hsplit, List.map_append, List.append_assoc,
    walk_children (fun sibling entries hentries => walk_of_placeBelow_ok hentries []) hplaced]
  rfl

/-- Taking off a node with a usable label puts its children on the stack. -/
theorem LeadsTo.trans {parent : Option String} {node target : Node}
    (hnode : LeadsTo nodes parent node) (hlabel : node.HasUsableLabel)
    (htarget : LeadsTo nodes (some node.id) target) : LeadsTo nodes parent target := by
  intro path stack paths
  obtain ⟨path₁, stack₁, paths₁, cost₁, h₁⟩ := hnode path stack paths
  obtain ⟨path₂, entry, hplace⟩ := exists_place_eq_ok hlabel path₁
  obtain ⟨path', stack', paths', cost₂, h₂⟩ :=
    htarget path₂ stack₁ (paths₁.insertAll entry)
  refine ⟨path', stack', paths', cost₁ + (cost₂ + 1), fun pops => ?_⟩
  rw [Nat.add_assoc, h₁, Nat.add_right_comm, walk_cons_of_ok hplace, h₂]

/-- A node whose children lead back to it keeps the loop going for ever. -/
theorem LeadsTo.walk_eq_none {node : Node} (h : LeadsTo nodes (some node.id) node)
    (hlabel : node.HasUsableLabel) (pops : Nat) (path : String) (stack : List (Node × String))
    (paths : PathMap) : walk nodes pops ((node, path) :: stack) paths = none := by
  -- One round takes at least one pop, and the next round is the same with fewer pops.
  induction pops using Nat.strongRecOn generalizing path stack paths with
  | ind pops ih =>
      obtain ⟨below, entry, hplace⟩ := exists_place_eq_ok hlabel path
      obtain ⟨path', stack', paths', cost, hround⟩ := h below stack (paths.insertAll entry)
      have hround (more : Nat) : walk nodes (cost + 1 + more) ((node, path) :: stack) paths =
          walk nodes more ((node, path') :: stack') paths' := by
        rw [Nat.add_right_comm, walk_cons_of_ok hplace, hround]
      by_cases hle : cost + 1 ≤ pops
      · obtain ⟨more, rfl⟩ := Nat.exists_eq_add_of_le hle
        rw [hround]
        exact ih more (by omega) path' stack' paths'
      · cases hwalk : walk nodes pops ((node, path) :: stack) paths with
        | none => rfl
        | some outcome =>
            obtain ⟨more, hmore⟩ := Nat.exists_eq_add_of_le (Nat.le_of_not_le hle)
            have hlast := walk_add hwalk more
            rw [← hmore, ← Nat.add_zero (cost + 1), hround] at hlast
            cases hlast

/-- The first node of a lineage has a usable label. -/
def HasUsableHead : List Node → Prop
  | [] => True
  | node :: _ => node.HasUsableLabel

theorem IsPlaceable.hasUsableHead {lineage : List Node} (h : IsPlaceable nodes lineage) :
    HasUsableHead lineage := by
  cases lineage with
  | nil => trivial
  | cons node above => exact h.2

/-- When the walk has met the lineages in front of one, the loop has come down along it.  The part
of the lineage below the node `above` starts with is `line`. -/
theorem exists_line {depth : Nat} {parent : Option String} {above : List Node}
    {front back : List (List Node)} {lineage : List Node}
    (hdepth : above.length + depth = nodes.length)
    (hsplit : (childrenOf nodes parent).flatMap (lineagesBelow nodes depth above) =
      front ++ lineage :: back)
    (hfront : ∀ earlier ∈ front, IsPlaceable nodes earlier) :
    ∃ line, lineage = line ++ above ∧ ∀ lower node upper, line = lower ++ node :: upper →
      (lower ≠ [] → node :: upper ++ above ∈ front) ∧ LeadsTo nodes parent node ∧
        ∀ other ∈ upper, LeadsTo nodes (some other.id) node := by
  obtain ⟨before, child, after, xs, ys, hchildren, hblock, rfl, rfl⟩ :=
    flatMap_eq_append_cons hsplit
  rw [List.forall_mem_append] at hfront
  have hchild : LeadsTo nodes parent child :=
    leadsTo_child hchildren fun sibling hsibling =>
      exists_placeBelow_eq_ok hdepth fun lineage hlineage =>
        hfront.1 lineage (List.mem_flatMap.2 ⟨sibling, hsibling, hlineage⟩)
  cases xs with
  | nil =>
      obtain ⟨_, hcons, _⟩ := lineagesBelow_eq_cons nodes depth above child
      rw [hblock] at hcons
      obtain ⟨rfl, _⟩ := List.cons.inj hcons
      refine ⟨[child], rfl, fun lower node upper hline => ?_⟩
      obtain ⟨rfl, rfl, rfl⟩ : lower = [] ∧ node = child ∧ upper = [] := by
        cases lower <;> simp_all
      exact ⟨fun h => absurd rfl h, hchild, by simp⟩
  | cons first xs =>
      cases depth with
      | zero => simp [lineagesBelow] at hblock
      | succ depth =>
          obtain ⟨rfl, hbelow⟩ := List.cons.inj hblock
          rw [List.forall_mem_cons] at hfront
          have hlabel : child.HasUsableLabel := hfront.2.1.2
          have hlength : (child :: above).length + depth = nodes.length := by
            simp only [List.length_cons]
            omega
          obtain ⟨line, rfl, hline⟩ := exists_line hlength hbelow hfront.2.2
          refine ⟨line ++ [child], by simp, fun lower node upper hsplit => ?_⟩
          rcases List.eq_nil_or_concat' upper with rfl | ⟨upper, last, rfl⟩
          · obtain ⟨rfl, hnode⟩ := List.append_inj' hsplit rfl
            obtain rfl := (List.cons.inj hnode).1
            exact ⟨fun _ => by simp, hchild, by simp⟩
          · rw [← List.cons_append, ← List.append_assoc] at hsplit
            obtain ⟨rfl, hlast⟩ := List.append_inj' hsplit rfl
            obtain rfl := (List.cons.inj hlast).1
            obtain ⟨hmem, hnode, hother⟩ := hline lower node upper rfl
            refine ⟨fun hlower => ?_, hchild.trans hlabel hnode, fun other hmem => ?_⟩
            · simpa using Or.inr (Or.inr (hmem hlower))
            · rcases List.mem_append.1 hmem with hmem | hmem
              · exact hother other hmem
              · rw [List.mem_singleton.1 hmem]
                exact hnode
termination_by depth

/-- The walk meets the lineage in `front ++ [lineage]`, and nothing on the way keeps it from going
on. -/
structure Meets (nodes : List Node) (front : List (List Node)) (lineage : List Node) : Prop where
  split : ∃ back, lineages nodes = front ++ lineage :: back
  usable : ∀ earlier ∈ front ++ [lineage], HasUsableHead earlier

/-- No id comes twice on a chain of parents, as far as the walk gets. -/
def MeetsNoIdTwice (nodes : List Node) : Prop :=
  ∀ front lineage, Meets nodes front lineage → (lineage.map (·.id)).Nodup

/-- The walk meets the rest of a lineage before the lineage. -/
theorem Meets.front {front between : List (List Node)} {lineage other : List Node}
    (h : Meets nodes (front ++ other :: between) lineage) : Meets nodes front other := by
  obtain ⟨⟨back, hsplit⟩, husable⟩ := h
  refine ⟨⟨between ++ lineage :: back, by simp [hsplit]⟩, fun earlier hearlier => ?_⟩
  apply husable
  rcases List.mem_append.1 hearlier with hearlier | hearlier
  · simp [hearlier]
  · simp [List.mem_singleton.1 hearlier]

theorem Meets.isLineage {front : List (List Node)} {lineage : List Node}
    (h : Meets nodes front lineage) :
    IsLineage nodes lineage ∧ ∀ earlier ∈ front, IsLineage nodes earlier ∧ earlier ≠ [] := by
  obtain ⟨⟨back, hsplit⟩, _⟩ := h
  have hmem : ∀ earlier ∈ front ++ lineage :: back, IsLineage nodes earlier ∧ earlier ≠ [] := by
    intro earlier hearlier
    rw [← hsplit, mem_lineages] at hearlier
    exact ⟨hearlier.1, hearlier.2.1⟩
  exact ⟨(hmem lineage (by simp)).1, fun earlier hearlier => hmem earlier (by simp [hearlier])⟩

/-- A lineage in which no id comes twice isn't longer than the list of nodes. -/
theorem IsLineage.isPlaceable {lineage : List Node} (h : IsLineage nodes lineage)
    (hids : (lineage.map (·.id)).Nodup) (husable : HasUsableHead lineage) :
    IsPlaceable nodes lineage := by
  have hlength := (List.subperm_of_subset (List.Nodup.of_map _ hids) h.subset).length_le
  cases lineage with
  | nil => trivial
  | cons node above => exact ⟨hlength, husable⟩

/-- If the walk meets an id for the second time on a chain, the loop never ends. -/
theorem Meets.walkFromTop_eq_none {front : List (List Node)} {lineage : List Node}
    (h : Meets nodes front lineage) (hids : ¬ (lineage.map (·.id)).Nodup) (pops : Nat) :
    walkFromTop nodes pops = none := by
  -- It is enough to look at the first lineage of this kind.
  induction hlength : front.length using Nat.strongRecOn generalizing front lineage with
  | ind length ih =>
      by_cases hfirst : ∀ earlier ∈ front, (earlier.map (·.id)).Nodup
      · obtain ⟨hlineage, hearlier⟩ := h.isLineage
        obtain ⟨⟨back, hsplit⟩, husable⟩ := h
        rw [List.forall_mem_append, List.forall_mem_singleton] at husable
        obtain ⟨line, hline, hleads⟩ := exists_line (Nat.zero_add _) hsplit fun earlier hmem =>
          (hearlier earlier hmem).1.isPlaceable (hfirst earlier hmem) (husable.1 earlier hmem)
        rw [List.append_nil] at hline
        subst hline
        obtain ⟨lower, node, upper, rfl, hmem⟩ := exists_split_of_not_nodup_map hids
        obtain ⟨other, hother, hid⟩ := List.mem_map.1 hmem
        obtain ⟨hfront, htop, hround⟩ := hleads lower node upper rfl
        have hround := hround other hother
        rw [hid] at hround
        have hlabel : node.HasUsableLabel := by
          by_cases hlower : lower = []
          · subst hlower
            exact husable.2
          · have := husable.1 _ (hfront hlower)
            exact this
        obtain ⟨path', stack', paths', cost, hcost⟩ := htop "" [] .empty
        rw [List.append_nil] at hcost
        exact walk_eq_none_of_reaches hcost
          (fun pops => hround.walk_eq_none hlabel pops path' stack' paths') pops
      · push Not at hfirst
        obtain ⟨other, hother, hids'⟩ := hfirst
        obtain ⟨front, between, rfl⟩ := List.append_of_mem hother
        exact ih front.length (by simp at hlength; omega) h.front hids' rfl

/-! ### What the loop gives -/

theorem walkFromTop_of_ok {paths : PathMap} (h : resolvePaths nodes = .ok paths) :
    walkFromTop nodes (lineages nodes).length = some (.ok paths) := by
  obtain ⟨placed, hplaced, h⟩ := bind_eq_ok_iff.1 h
  obtain rfl := Except.ok.inj h
  have hwalk := walk_children (fun child entries hentries =>
    walk_of_placeBelow_ok hentries []) hplaced [] .empty 0
  rw [List.append_nil, walk_nil] at hwalk
  exact hwalk

theorem walkFromTop_of_missingLabel {id : String}
    (h : resolvePaths nodes = .error (.missingLabel id)) :
    walkFromTop nodes (lineages nodes).length = some (.error (.missingLabel id)) := by
  obtain hmap | ⟨_, _, h⟩ := bind_eq_error_iff.1 h
  · have hwalk := walk_children_error (fun child hchild =>
      walk_of_placeBelow_error hchild []) hmap [] .empty
    rwa [List.append_nil] at hwalk
  · cases h

theorem exists_of_placeLineage_eq_error {lineage : List Node} {e : GraphError}
    (h : placeLineage nodes lineage = .error e) :
    ∃ node above, lineage = node :: above ∧
      ((nodes.length ≤ above.length ∧ e = .endlessNesting node.id) ∨
        e = .missingLabel node.id) := by
  cases lineage with
  | nil => cases h
  | cons node above =>
      refine ⟨node, above, rfl, ?_⟩
      rw [placeLineage] at h
      split at h
      · rename_i hlength
        exact .inl ⟨hlength, (Except.error.inj h).symm⟩
      · split at h
        · cases h
        · exact .inr (Except.error.inj h).symm

theorem exists_meets_of_mem {front back : List (List Node)} {lineage other : List Node}
    (hsplit : lineages nodes = front ++ lineage :: back)
    (husable : ∀ earlier ∈ front, HasUsableHead earlier) (hother : other ∈ front) :
    ∃ front', Meets nodes front' other := by
  obtain ⟨front', between, rfl⟩ := List.append_of_mem hother
  refine ⟨front', ⟨between ++ lineage :: back, by simp [hsplit]⟩, fun earlier hearlier => ?_⟩
  refine husable earlier ?_
  rcases List.mem_append.1 hearlier with hearlier | hearlier
  · simp [hearlier]
  · simp [List.mem_singleton.1 hearlier]

/-- Only where the walk meets an id for the second time on a chain, resolving finds that it
wouldn't end. -/
theorem not_meetsNoIdTwice_of_endlessNesting {id : String}
    (h : resolvePaths nodes = .error (.endlessNesting id)) : ¬ MeetsNoIdTwice nodes := by
  intro hnone
  obtain ⟨front, lineage, back, hsplit, hfront, hplace⟩ := exists_meets_of_resolvePaths h
  obtain ⟨node, above, rfl, ⟨hlength, _⟩ | hlabel⟩ := exists_of_placeLineage_eq_error hplace
  · have hlineage : IsLineage nodes (node :: above) := (mem_lineages.1 (by simp [hsplit])).1
    have husable : ∀ earlier ∈ front, HasUsableHead earlier := fun earlier hmem =>
      (hfront earlier hmem).hasUsableHead
    obtain ⟨line, hline, hrest⟩ := exists_line (Nat.zero_add _) hsplit hfront
    rw [List.append_nil] at hline
    subst hline
    have habove : ∀ lower other upper, above = lower ++ other :: upper →
        other :: upper ∈ front := by
      intro lower other upper habove
      simpa using (hrest (node :: lower) other upper (by simp [habove])).1 (by simp)
    -- There are more nodes on the lineage than in the list, so one of them comes twice.  If it is
    -- the first one, its label was found to be usable higher up.
    have hrepeat : ¬ (node :: above).Nodup := by
      intro hnodup
      have := (List.subperm_of_subset hnodup hlineage.subset).length_le
      simp only [List.length_cons] at this
      omega
    by_cases hmem : node ∈ above
    · obtain ⟨lower, upper, rfl⟩ := List.append_of_mem hmem
      have hlabel : node.HasUsableLabel := husable _ (habove lower node upper rfl)
      have hmeets : Meets nodes front (node :: (lower ++ node :: upper)) :=
        ⟨⟨back, hsplit⟩, List.forall_mem_append.2
          ⟨husable, List.forall_mem_singleton.2 hlabel⟩⟩
      exact hrepeat (List.Nodup.of_map _ (hnone _ _ hmeets))
    · cases above with
      | nil => exact hrepeat (List.nodup_singleton _)
      | cons next rest =>
          obtain ⟨front', hmeets⟩ := exists_meets_of_mem hsplit husable (habove [] next rest rfl)
          exact hrepeat (List.nodup_cons.2 ⟨hmem, List.Nodup.of_map _ (hnone _ _ hmeets)⟩)
  · cases hlabel

/-- What resolving directories may come to, and what the loop comes to then. -/
theorem resolvePaths_cases (nodes : List Node) :
    (∃ outcome, walkFromTop nodes (lineages nodes).length = some outcome ∧
      resolvePaths nodes = outcome ∧
      ((∃ paths, outcome = .ok paths) ∨ ∃ id, outcome = .error (.missingLabel id))) ∨
    ¬ MeetsNoIdTwice nodes := by
  cases hresolve : resolvePaths nodes with
  | ok paths => exact .inl ⟨_, walkFromTop_of_ok hresolve, rfl, .inl ⟨paths, rfl⟩⟩
  | error e =>
      obtain ⟨_, _, _, _, _, hplace⟩ := exists_meets_of_resolvePaths hresolve
      obtain ⟨node, above, rfl, ⟨_, rfl⟩ | rfl⟩ := exists_of_placeLineage_eq_error hplace
      · exact .inr (not_meetsNoIdTwice_of_endlessNesting hresolve)
      · exact .inl ⟨_, walkFromTop_of_missingLabel hresolve, rfl, .inr ⟨node.id, rfl⟩⟩

theorem meetsNoIdTwice_of_walkFromTop {pops : Nat} {outcome : Except GraphError PathMap}
    (h : walkFromTop nodes pops = some outcome) : MeetsNoIdTwice nodes := by
  intro front lineage hmeets
  by_contra hids
  rw [hmeets.walkFromTop_eq_none hids] at h
  cases h

/-! ### Distinct ids -/

theorem nodup_flatMap_lineagesBelow {depth : Nat} {above children : List Node}
    (hchildren : children.Nodup)
    (hbelow : ∀ child ∈ children, (lineagesBelow nodes depth above child).Nodup) :
    (children.flatMap (lineagesBelow nodes depth above)).Nodup := by
  rw [List.nodup_flatMap]
  refine ⟨hbelow, hchildren.imp fun {a b} hne lineage ha hb => hne ?_⟩
  -- What lies below both has both at the same place.
  have hsuffix := List.suffix_of_suffix_length_le (suffix_of_mem_lineagesBelow ha)
    (suffix_of_mem_lineagesBelow hb) (by simp)
  exact (List.cons.inj (hsuffix.eq_of_length (by simp))).1

theorem DistinctIds.nodup_childrenOf (hids : DistinctIds nodes) (parent : Option String) :
    (childrenOf nodes parent).Nodup :=
  (List.Nodup.of_map _ hids).filter _

theorem DistinctIds.nodup_lineagesBelow (hids : DistinctIds nodes) (depth : Nat)
    (above : List Node) (node : Node) : (lineagesBelow nodes depth above node).Nodup := by
  induction depth generalizing above node with
  | zero => exact List.nodup_singleton _
  | succ depth ih =>
      rw [lineagesBelow, List.nodup_cons]
      refine ⟨fun hmem => ?_, nodup_flatMap_lineagesBelow (hids.nodup_childrenOf _)
        fun child _ => ih (node :: above) child⟩
      obtain ⟨child, _, hmem⟩ := List.mem_flatMap.1 hmem
      have := (suffix_of_mem_lineagesBelow hmem).length_le
      simp only [List.length_cons] at this
      omega

/-- Where ids are distinct there are no more lineages than nodes. -/
theorem DistinctIds.length_lineages_le (hids : DistinctIds nodes) :
    (lineages nodes).length ≤ nodes.length := by
  have hnodup : (lineages nodes).Nodup := nodup_flatMap_lineagesBelow (hids.nodup_childrenOf _)
    fun child _ => hids.nodup_lineagesBelow _ _ child
  have hheads : ((lineages nodes).map List.head?).Nodup := by
    refine List.Nodup.map_on (fun a ha b hb hhead => ?_) hnodup
    obtain ⟨hlineage, hne, _⟩ := mem_lineages.1 ha
    obtain ⟨hlineage', hne', _⟩ := mem_lineages.1 hb
    obtain ⟨node, above, rfl⟩ := List.exists_cons_of_ne_nil hne
    obtain ⟨node', above', rfl⟩ := List.exists_cons_of_ne_nil hne'
    obtain rfl : node = node' := Option.some.inj hhead
    rw [hlineage.tail_unique hids hlineage']
  have hsubset : (lineages nodes).map List.head? ⊆ nodes.map some := by
    intro head hhead
    obtain ⟨lineage, hlineage, rfl⟩ := List.mem_map.1 hhead
    obtain ⟨hlineage, hne, _⟩ := mem_lineages.1 hlineage
    obtain ⟨node, above, rfl⟩ := List.exists_cons_of_ne_nil hne
    exact List.mem_map.2 ⟨node, hlineage.1, rfl⟩
  simpa using (List.subperm_of_subset hheads hsubset).length_le

/-- Which lists of nodes are resolved by the loop in finitely many steps: exactly those where the
walk meets no id twice on a chain of parents, or a node without usable label before.  The loop then
gives what resolving gives, a map or such a node, and where ids are distinct it takes off every node
at most once. -/
theorem exists_walkFromTop_iff (nodes : List Node) :
    ((∃ pops outcome, walkFromTop nodes pops = some outcome) ↔ MeetsNoIdTwice nodes) ∧
      (∀ pops outcome, walkFromTop nodes pops = some outcome → resolvePaths nodes = outcome ∧
        ((∃ paths, outcome = .ok paths) ∨ ∃ id, outcome = .error (.missingLabel id))) ∧
      (DistinctIds nodes → ∃ outcome, walkFromTop nodes nodes.length = some outcome) := by
  have hends : MeetsNoIdTwice nodes → ∃ outcome,
      walkFromTop nodes (lineages nodes).length = some outcome ∧ resolvePaths nodes = outcome ∧
        ((∃ paths, outcome = .ok paths) ∨ ∃ id, outcome = .error (.missingLabel id)) :=
    fun h => (resolvePaths_cases nodes).resolve_right (not_not_intro h)
  refine ⟨⟨fun ⟨_, _, h⟩ => meetsNoIdTwice_of_walkFromTop h, fun h => ?_⟩, ?_, fun hids => ?_⟩
  · obtain ⟨outcome, hwalk, _⟩ := hends h
    exact ⟨_, outcome, hwalk⟩
  · intro pops outcome hwalk
    obtain ⟨outcome', hwalk', hresult⟩ := hends (meetsNoIdTwice_of_walkFromTop hwalk)
    rwa [walk_outcome_unique hwalk hwalk']
  · have hnone : MeetsNoIdTwice nodes := fun front lineage hmeets =>
      hmeets.isLineage.1.ids_nodup fun lineage hlineage => hlineage.length_le hids
    obtain ⟨outcome, hwalk, _⟩ := hends hnone
    obtain ⟨more, hmore⟩ := Nat.exists_eq_add_of_le hids.length_lineages_le
    exact ⟨outcome, by rw [hmore]; exact walk_add hwalk more⟩

end Walk

/-! ### An id that comes twice on a chain -/

namespace RepeatedId

/-- Two nodes with the same id, of which the second one lies below that id. -/
def node (parent : Option String) (label : String) : Node where
  id := "a"
  type := .folder
  parentId := parent
  depth := 0
  label := label
  locals := .empty
  inputs := .empty
  files := []
  position := .origin
  size := .none

def nodes : List Node := [node none "x", node (some "a") "y"]

theorem meets : Meets nodes [[node none "x"]] [node (some "a") "y", node none "x"] := by
  refine ⟨⟨[[node (some "a") "y", node (some "a") "y", node none "x"]], rfl⟩, ?_⟩
  have hlabel (parent : Option String) (label : String)
      (h : isUsableName (sanitizeLabel label) = true) : (node parent label).HasUsableLabel :=
    .inr h
  simp only [List.singleton_append, List.forall_mem_cons]
  exact ⟨hlabel none "x" (by decide), hlabel _ "y" (by decide), by simp⟩

/-- The second node lies below itself, so the loop never comes to an end. -/
theorem not_exists_walkFromTop : ¬ ∃ pops outcome, walkFromTop nodes pops = some outcome := by
  rintro ⟨pops, outcome, hwalk⟩
  rw [meets.walkFromTop_eq_none (by decide) pops] at hwalk
  cases hwalk

end RepeatedId

end InfraGraph
