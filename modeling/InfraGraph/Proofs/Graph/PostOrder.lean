import InfraGraph.Proofs.Graph.Layout

/-!
# Laying out with a stack

A group can only be sized once all of its children are.  A loop over a stack meets every place
twice: first its children are put on top of it, and when they have been dealt with the place itself
is done.  Groups are then sized in the order in which places were done, by looking up the sizes of
their children and writing boxes into one list.

The loop ends for every list of nodes, since no place is put on the stack twice, and its order has
every place whose chain of parents ends, behind its children.  Along such an order the boxes written
so far are those of the equations, and none of the places looked up is missing.  So the equations
have one solution only, and the loop comes to the boxes that the recursion arranges.
-/

namespace InfraGraph.Layout

/-! ### The loop -/

/-- The children of every place. -/
def childTable (parents : List (Option Nat)) : List (List Nat) :=
  (List.range parents.length).map fun place => childPlaces parents (some place)

/-- The loop over a stack of places, of which those that were met before are marked.  `none` stands
for a loop that isn't over after taking off `pops` places, and for a place that isn't in the
table. -/
def postOrder (table : List (List Nat)) :
    (pops : Nat) → (stack : List (Nat × Bool)) → (done : List Nat) → Option (List Nat)
  | _, [], done => some done
  | 0, _ :: _, _ => none
  | pops + 1, (place, true) :: stack, done => postOrder table pops stack (done ++ [place])
  | pops + 1, (place, false) :: stack, done =>
    match table[place]? with
    | none => none
    | some children =>
      postOrder table pops (children.map (·, false) ++ (place, true) :: stack) done

/-- The order of all places from those without parent on. -/
def postOrderOf (nodes : List Node) (pops : Nat) : Option (List Nat) :=
  postOrder (childTable (parents nodes)) pops ((childPlaces (parents nodes) none).map (·, false)) []

/-- Every place whose chain of parents ends comes once, behind all of its children. -/
structure IsPostOrder (nodes : List Node) (order : List Nat) : Prop where
  nodup : order.Nodup
  mem_iff : ∀ place, place ∈ order ↔ ChainEnds nodes place
  children_before : ∀ front place back, order = front ++ place :: back →
    ∀ child, IsParent nodes place child → child ∈ front

section Walk

variable {parents : List (Option Nat)} {table : List (List Nat)}

theorem getElem?_childTable {place : Nat} (h : place < parents.length) :
    (childTable parents)[place]? = some (childPlaces parents (some place)) := by
  rw [childTable, List.getElem?_map, List.getElem?_range h, Option.map_some]

@[simp] theorem postOrder_nil (pops : Nat) (done : List Nat) :
    postOrder table pops [] done = some done := by
  cases pops <;> rfl

theorem postOrder_unmarked {place : Nat} {children : List Nat} (h : table[place]? = some children)
    (pops : Nat) (stack : List (Nat × Bool)) (done : List Nat) :
    postOrder table (pops + 1) ((place, false) :: stack) done =
      postOrder table pops (children.map (·, false) ++ (place, true) :: stack) done := by
  rw [postOrder, h]

/-- A loop that is over stays so. -/
theorem postOrder_add {pops : Nat} {stack : List (Nat × Bool)} {done order : List Nat}
    (h : postOrder table pops stack done = some order) (more : Nat) :
    postOrder table (pops + more) stack done = some order := by
  induction pops generalizing stack done with
  | zero =>
      cases stack with
      | nil => simpa using h
      | cons top stack => cases h
  | succ pops ih =>
      rw [Nat.succ_add]
      match stack with
      | [] => simpa using h
      | (place, true) :: stack => exact ih h
      | (place, false) :: stack =>
          cases hplace : table[place]? with
          | none => simp [postOrder, hplace] at h
          | some children =>
              rw [postOrder_unmarked hplace] at h ⊢
              exact ih h

/-- A place with everything below it, behind what is below it.  Chains of parents end after `depth`
steps. -/
def finishedBelow (parents : List (Option Nat)) : (depth place : Nat) → List Nat
  | 0, place => [place]
  | depth + 1, place =>
    (childPlaces parents (some place)).flatMap (finishedBelow parents depth) ++ [place]

/-- The places below those without parent. -/
def finished (parents : List (Option Nat)) : List Nat :=
  (childPlaces parents none).flatMap (finishedBelow parents parents.length)

/-- Siblings that are dealt with one by one are taken off with everything below them. -/
theorem postOrder_siblings {depth : Nat} {siblings : List Nat}
    (hsibling : ∀ sibling ∈ siblings, ∀ stack done pops,
      postOrder table (2 * (finishedBelow parents depth sibling).length + pops)
          ((sibling, false) :: stack) done =
        postOrder table pops stack (done ++ finishedBelow parents depth sibling))
    (stack : List (Nat × Bool)) (done : List Nat) (pops : Nat) :
    postOrder table (2 * (siblings.flatMap (finishedBelow parents depth)).length + pops)
        (siblings.map (·, false) ++ stack) done =
      postOrder table pops stack (done ++ siblings.flatMap (finishedBelow parents depth)) := by
  induction siblings generalizing done with
  | nil =>
      rw [List.flatMap_nil, List.length_nil, List.append_nil, Nat.mul_zero, Nat.zero_add]
      rfl
  | cons sibling siblings ih =>
      rw [List.forall_mem_cons] at hsibling
      rw [List.flatMap_cons, List.length_append, Nat.mul_add, Nat.add_assoc, List.map_cons,
        List.cons_append, hsibling.1, ih hsibling.2, List.append_assoc]

/-- A place at some level is taken off with everything below it, each place twice. -/
theorem AtLevel.postOrder_eq {level depth place : Nat} (h : AtLevel parents level place)
    (hdepth : level + depth = parents.length) (stack : List (Nat × Bool)) (done : List Nat)
    (pops : Nat) :
    postOrder (childTable parents)
        (2 * (finishedBelow parents depth place).length + pops) ((place, false) :: stack) done =
      postOrder (childTable parents) pops stack
        (done ++ finishedBelow parents depth place) := by
  induction depth generalizing level place stack done pops with
  | zero =>
      have := h.level_lt_length
      omega
  | succ depth ih =>
      rw [finishedBelow, List.length_append, List.length_singleton,
        show ∀ n, 2 * (n + 1) + pops = 2 * n + (pops + 1) + 1 by omega,
        postOrder_unmarked (getElem?_childTable h.lt_length),
        postOrder_siblings (fun child hchild =>
          ih (.child (mem_childPlaces.1 hchild) h) (by omega)), postOrder, List.append_assoc]

theorem postOrder_finished (pops : Nat) :
    postOrder (childTable parents)
      (2 * (finished parents).length + pops) ((childPlaces parents none).map (·, false)) [] =
        some (finished parents) := by
  have hwalk := postOrder_siblings (fun top htop =>
    (AtLevel.top (mem_childPlaces.1 htop)).postOrder_eq (Nat.zero_add parents.length)) [] [] pops
  rwa [List.append_nil, postOrder_nil, List.nil_append] at hwalk

/-! ### The order -/

theorem AtLevel.mem_finishedBelow {level depth place below : Nat} (h : AtLevel parents level place)
    (hdepth : level + depth = parents.length) :
    below ∈ finishedBelow parents depth place ↔ IsAbove parents place below := by
  induction depth generalizing level place with
  | zero =>
      have := h.level_lt_length
      omega
  | succ depth ih =>
      rw [finishedBelow, List.mem_append, List.mem_flatMap, List.mem_singleton]
      constructor
      · rintro (⟨child, hchild, hmem⟩ | rfl)
        · have hchild := mem_childPlaces.1 hchild
          exact .head hchild ((ih (.child hchild h) (by omega)).1 hmem)
        · exact .refl
      · intro habove
        rcases Relation.ReflTransGen.cases_head habove with rfl | ⟨child, hchild, habove⟩
        · exact .inr rfl
        · exact .inl ⟨child, mem_childPlaces.2 hchild,
            (ih (.child hchild h) (by omega)).2 habove⟩

/-- Of siblings at one level no two have a place below them in common. -/
theorem nodup_flatMap_finishedBelow {level depth : Nat} {siblings : List Nat}
    (hlevel : ∀ sibling ∈ siblings, AtLevel parents level sibling)
    (hdepth : level + depth = parents.length) (hnodup : siblings.Nodup)
    (hbelow : ∀ sibling ∈ siblings, (finishedBelow parents depth sibling).Nodup) :
    (siblings.flatMap (finishedBelow parents depth)).Nodup := by
  rw [List.nodup_flatMap]
  refine ⟨hbelow, hnodup.pairwise_of_forall_ne fun a ha b hb hne below hbelowa hbelowb => hne ?_⟩
  exact (hlevel a ha).eq_of_isAbove (hlevel b hb)
    (((hlevel a ha).mem_finishedBelow hdepth).1 hbelowa)
    (((hlevel b hb).mem_finishedBelow hdepth).1 hbelowb)

theorem AtLevel.nodup_finishedBelow {level depth place : Nat} (h : AtLevel parents level place)
    (hdepth : level + depth = parents.length) : (finishedBelow parents depth place).Nodup := by
  induction depth generalizing level place with
  | zero => exact List.nodup_singleton place
  | succ depth ih =>
      have hlevel : ∀ child ∈ childPlaces parents (some place), AtLevel parents (level + 1) child :=
        fun child hchild => .child (mem_childPlaces.1 hchild) h
      rw [finishedBelow, List.nodup_append]
      refine ⟨nodup_flatMap_finishedBelow hlevel (by omega) (nodup_childPlaces _ _)
        fun child hchild => ih (hlevel child hchild) (by omega), List.nodup_singleton place, ?_⟩
      rintro below hbelow _ hplace rfl
      obtain rfl := List.mem_singleton.1 hplace
      obtain ⟨child, hchild, hmem⟩ := List.mem_flatMap.1 hbelow
      have habove := ((hlevel child hchild).mem_finishedBelow (by omega)).1 hmem
      obtain ⟨more, hlower, _⟩ := (hlevel child hchild).of_isAbove habove
      have := hlower.unique h
      omega

/-- Every child of a place in the list comes before it. -/
def ChildrenFirst (parents : List (Option Nat)) (order : List Nat) : Prop :=
  ∀ front place back, order = front ++ place :: back →
    ∀ child, parents[child]? = some (some place) → child ∈ front

theorem ChildrenFirst.append {order order' : List Nat} (h : ChildrenFirst parents order)
    (h' : ChildrenFirst parents order') : ChildrenFirst parents (order ++ order') := by
  intro front place back hsplit child hchild
  rcases List.append_eq_append_iff.1 hsplit with ⟨more, rfl, hrest⟩ | ⟨more, hfront, hback⟩
  · exact List.mem_append_right _ (h' more place back hrest child hchild)
  · cases more with
    | nil =>
        rw [List.append_nil] at hfront
        exact absurd (h' [] place back hback.symm child hchild) List.not_mem_nil
    | cons first more =>
        obtain ⟨rfl, _⟩ := List.cons.inj hback
        exact h front place more hfront child hchild

theorem childrenFirst_flatMap {f : Nat → List Nat} {siblings : List Nat}
    (h : ∀ sibling ∈ siblings, ChildrenFirst parents (f sibling)) :
    ChildrenFirst parents (siblings.flatMap f) := by
  induction siblings with
  | nil => exact fun front place back hsplit => by simp at hsplit
  | cons sibling siblings ih =>
      rw [List.forall_mem_cons] at h
      rw [List.flatMap_cons]
      exact h.1.append (ih h.2)

theorem AtLevel.childrenFirst {level depth place : Nat} (h : AtLevel parents level place)
    (hdepth : level + depth = parents.length) :
    ChildrenFirst parents (finishedBelow parents depth place) := by
  induction depth generalizing level place with
  | zero =>
      have := h.level_lt_length
      omega
  | succ depth ih =>
      have hbelow : ChildrenFirst parents
          ((childPlaces parents (some place)).flatMap (finishedBelow parents depth)) :=
        childrenFirst_flatMap fun child hchild =>
          ih (.child (mem_childPlaces.1 hchild) h) (by omega)
      intro front last back hsplit child hchild
      rw [finishedBelow] at hsplit
      rcases List.eq_nil_or_concat' back with rfl | ⟨back, final, rfl⟩
      · obtain ⟨rfl, hlast⟩ := List.append_inj' hsplit rfl
        obtain rfl := (List.cons.inj hlast).1
        have hlevel : AtLevel parents (level + 1) child := .child hchild h
        exact List.mem_flatMap.2 ⟨child, mem_childPlaces.2 hchild,
          (hlevel.mem_finishedBelow (by omega)).2 .refl⟩
      · rw [← List.cons_append, ← List.append_assoc] at hsplit
        exact hbelow front last back (List.append_inj' hsplit rfl).1 child hchild

end Walk

section Order

variable {nodes : List Node}

theorem isPostOrder_finished (nodes : List Node) :
    IsPostOrder nodes (finished (parents nodes)) where
  nodup := nodup_flatMap_finishedBelow (fun _ htop => .top (mem_childPlaces.1 htop))
    (Nat.zero_add _) (nodup_childPlaces _ _) fun _ htop =>
      (AtLevel.top (mem_childPlaces.1 htop)).nodup_finishedBelow (Nat.zero_add _)
  mem_iff place := by
    rw [chainEnds_iff, finished, List.mem_flatMap]
    constructor
    · rintro ⟨top, htop, hmem⟩
      have hlevel := AtLevel.top (mem_childPlaces.1 htop)
      obtain ⟨more, hlower, _⟩ :=
        hlevel.of_isAbove ((hlevel.mem_finishedBelow (Nat.zero_add _)).1 hmem)
      exact ⟨_, hlower⟩
    · rintro ⟨level, hlevel⟩
      obtain ⟨top, htop, habove⟩ := hlevel.exists_above
      exact ⟨top, mem_childPlaces.2 htop,
        ((AtLevel.top htop).mem_finishedBelow (Nat.zero_add _)).2 habove⟩
  children_before front place back hsplit child hchild :=
    childrenFirst_flatMap (fun top htop =>
      (AtLevel.top (mem_childPlaces.1 htop)).childrenFirst (Nat.zero_add _)) front place back hsplit
        child (parents_eq_some_iff.2 hchild)

theorem ChainEnds.lt_length {place : Nat} (h : ChainEnds nodes place) : place < nodes.length := by
  obtain ⟨level, hlevel⟩ := chainEnds_iff.1 h
  exact length_parents nodes ▸ hlevel.lt_length

theorem IsPostOrder.length_le {order : List Nat} (h : IsPostOrder nodes order) :
    order.length ≤ nodes.length := by
  have hsubset : order ⊆ List.range nodes.length := fun place hplace =>
    List.mem_range.2 ((h.mem_iff place).1 hplace).lt_length
  simpa using (List.subperm_of_subset h.nodup hsubset).length_le

/-- The loop is over when it has taken off every node twice. -/
theorem exists_postOrderOf (nodes : List Node) :
    ∃ order, postOrderOf nodes (2 * nodes.length) = some order ∧ IsPostOrder nodes order := by
  have horder := isPostOrder_finished nodes
  obtain ⟨more, hmore⟩ := Nat.exists_eq_add_of_le (Nat.mul_le_mul_left 2 horder.length_le)
  exact ⟨_, by rw [hmore]; exact postOrder_finished more, horder⟩

end Order

end InfraGraph.Layout
