import Mathlib.Data.List.Nodup
import Mathlib.Data.List.Perm.Subperm
import Mathlib.Tactic.Common
import InfraGraph.Graph.Paths

/-!
# Lineages

A lineage is a node together with its parent, the parent of that one and so on, up to a node without
parent.  Its directory is made of the labels on the way, where nodes of type `root` are passed over.
Depth-first resolution goes through all lineages in an order of its own; this file says which lists
those are, without mentioning labels or failures.

Where ids are distinct a node has at most one lineage, no node comes twice in it, and so it is never
longer than the list of nodes.  Where ids are repeated a lineage may go through the same id twice,
and then it can be made as long as one likes.
-/

namespace InfraGraph

/-- A node, its parent, the parent of that one, and so on up to a node without parent. -/
def IsLineage (nodes : List Node) : List Node → Prop
  | [] => True
  | node :: above =>
    node ∈ nodes ∧ node.parentId = above.head?.map (·.id) ∧ IsLineage nodes above

/-- The names of the directories that lead to the first node of a lineage, from the top down. -/
def directoryParts : List Node → List String
  | [] => []
  | node :: above =>
    if node.type = .root then directoryParts above
    else directoryParts above ++ [sanitizeLabel node.label]

/-- The chain of parents of a node reaches the top, and the labels on it are the given parts. -/
def LiesAt (nodes : List Node) (node : Node) (parts : List String) : Prop :=
  ∃ above, IsLineage nodes (node :: above) ∧ directoryParts (node :: above) = parts

/-- The ids of nodes tell them apart. -/
def DistinctIds (nodes : List Node) : Prop :=
  (nodes.map (·.id)).Nodup

instance (nodes : List Node) : Decidable (DistinctIds nodes) :=
  inferInstanceAs (Decidable (nodes.map (·.id)).Nodup)

section Lineage

variable {nodes : List Node} {node : Node} {above lineage : List Node}

theorem mem_childrenOf {parent : Option String} :
    node ∈ childrenOf nodes parent ↔ node ∈ nodes ∧ node.parentId = parent := by
  simp [childrenOf]

theorem isLineage_cons :
    IsLineage nodes (node :: above) ↔
      node ∈ childrenOf nodes (above.head?.map (·.id)) ∧ IsLineage nodes above := by
  rw [mem_childrenOf, and_assoc]
  rfl

theorem IsLineage.tail (h : IsLineage nodes (node :: above)) : IsLineage nodes above :=
  h.2.2

theorem IsLineage.of_suffix {tail : List Node} (h : IsLineage nodes lineage)
    (hsuffix : tail <:+ lineage) : IsLineage nodes tail := by
  induction lineage with
  | nil =>
      rw [List.suffix_nil.1 hsuffix]
      trivial
  | cons node above ih =>
      rcases List.suffix_cons_iff.1 hsuffix with rfl | hsuffix
      · exact h
      · exact ih h.tail hsuffix

theorem IsLineage.subset (h : IsLineage nodes lineage) : lineage ⊆ nodes := by
  induction lineage with
  | nil => simp
  | cons node above ih => exact List.cons_subset.2 ⟨h.1, ih h.tail⟩

theorem IsLineage.of_subset {nodes' : List Node} (h : IsLineage nodes lineage)
    (hsubset : lineage ⊆ nodes') : IsLineage nodes' lineage := by
  induction lineage with
  | nil => trivial
  | cons node above ih =>
      obtain ⟨hnode, habove⟩ := List.cons_subset.1 hsubset
      exact ⟨hnode, h.2.1, ih h.tail habove⟩

/-- A node whose parent is missing lies nowhere. -/
theorem not_liesAt_of_parentId {id : String} (hparent : node.parentId = some id)
    (hmissing : id ∉ nodes.map (·.id)) (parts : List String) : ¬ LiesAt nodes node parts := by
  rintro ⟨above, ⟨_, habove, hlineage⟩, _⟩
  cases above with
  | nil => exact Option.some_ne_none id (hparent.symm.trans habove)
  | cons parent _ =>
      obtain rfl : id = parent.id := Option.some.inj (hparent.symm.trans habove)
      exact hmissing (List.mem_map.2 ⟨parent, hlineage.1, rfl⟩)

/-! ### Distinct ids -/

theorem DistinctIds.eq_of_id_eq (hids : DistinctIds nodes) {a b : Node} (ha : a ∈ nodes)
    (hb : b ∈ nodes) (h : a.id = b.id) : a = b :=
  List.inj_on_of_nodup_map hids ha hb h

/-- Where ids are distinct the first node of a lineage determines the rest. -/
theorem IsLineage.tail_unique (hids : DistinctIds nodes) {other : List Node}
    (h : IsLineage nodes (node :: above)) (h' : IsLineage nodes (node :: other)) :
    above = other := by
  induction above generalizing node other with
  | nil =>
      have hnone : node.parentId = none := h.2.1
      cases other with
      | nil => rfl
      | cons parent rest =>
          have hsome : node.parentId = some parent.id := h'.2.1
          simp [hnone] at hsome
  | cons parent rest ih =>
      have hparent : node.parentId = some parent.id := h.2.1
      cases other with
      | nil =>
          have hnone : node.parentId = none := h'.2.1
          simp [hparent] at hnone
      | cons parent' rest' =>
          have hparent' : node.parentId = some parent'.id := h'.2.1
          have hid : parent.id = parent'.id := by simpa [hparent] using hparent'
          obtain rfl := hids.eq_of_id_eq h.tail.1 h'.tail.1 hid
          rw [ih h.tail h'.tail]

theorem IsLineage.nodup (hids : DistinctIds nodes) (h : IsLineage nodes lineage) :
    lineage.Nodup := by
  induction lineage with
  | nil => exact List.nodup_nil
  | cons node above ih =>
      refine List.nodup_cons.2 ⟨fun hmem => ?_, ih h.tail⟩
      -- The node would have a shorter lineage inside its own one.
      obtain ⟨front, rest, rfl⟩ := List.append_of_mem hmem
      have hinner : IsLineage nodes (node :: rest) := h.tail.of_suffix ⟨front, rfl⟩
      have hlength := congrArg List.length (h.tail_unique hids hinner)
      simp only [List.length_append, List.length_cons] at hlength
      omega

theorem IsLineage.length_le (hids : DistinctIds nodes) (h : IsLineage nodes lineage) :
    lineage.length ≤ nodes.length :=
  (List.subperm_of_subset (h.nodup hids) h.subset).length_le

theorem LiesAt.unique (hids : DistinctIds nodes) {parts parts' : List String}
    (h : LiesAt nodes node parts) (h' : LiesAt nodes node parts') : parts = parts' := by
  obtain ⟨above, hlineage, rfl⟩ := h
  obtain ⟨above', hlineage', rfl⟩ := h'
  rw [hlineage.tail_unique hids hlineage']

theorem LiesAt.mem {parts : List String} (h : LiesAt nodes node parts) : node ∈ nodes := by
  obtain ⟨_, hlineage, _⟩ := h
  exact hlineage.1

/-! ### Repeated ids -/

/-- A lineage in which an id comes twice can be made longer, by going round once more. -/
theorem IsLineage.exists_longer {front back : List Node} {first : Node}
    (h : IsLineage nodes (first :: (front ++ node :: back))) (hid : first.id = node.id) :
    ∃ longer, IsLineage nodes (first :: (front ++ first :: longer)) ∧
      (front ++ node :: back).length < (front ++ first :: longer).length := by
  refine ⟨front ++ node :: back, ?_, by simp only [List.length_append, List.length_cons]; omega⟩
  suffices hfront : ∀ pre : List Node, IsLineage nodes (pre ++ node :: back) →
      IsLineage nodes (pre ++ first :: (front ++ node :: back)) from hfront (first :: front) h
  intro pre
  induction pre with
  | nil => exact fun _ => h
  | cons x pre ih =>
      intro hpre
      refine ⟨hpre.1, ?_, ih hpre.tail⟩
      have hparent : x.parentId = (pre ++ node :: back).head?.map (·.id) := hpre.2.1
      cases pre with
      | nil => simpa [hid] using hparent
      | cons y pre => simpa using hparent

theorem IsLineage.exists_length_ge {front back : List Node} {first : Node}
    (h : IsLineage nodes (first :: (front ++ node :: back))) (hid : first.id = node.id) (n : Nat) :
    ∃ longer, IsLineage nodes longer ∧ n ≤ longer.length := by
  suffices hgrow : ∃ node back, IsLineage nodes (first :: (front ++ node :: back)) ∧
      first.id = node.id ∧ n ≤ (front ++ node :: back).length by
    obtain ⟨node, back, hlineage, _, hlength⟩ := hgrow
    exact ⟨_, hlineage, Nat.le_succ_of_le hlength⟩
  induction n with
  | zero => exact ⟨node, back, h, hid, Nat.zero_le _⟩
  | succ n ih =>
      obtain ⟨node, back, hlineage, hid, hlength⟩ := ih
      obtain ⟨longer, hlonger, hlt⟩ := hlineage.exists_longer hid
      exact ⟨first, longer, hlonger, rfl, by omega⟩

/-- If lineages are bounded in length, no id comes twice in one. -/
theorem IsLineage.ids_nodup {bound : Nat}
    (hbound : ∀ lineage, IsLineage nodes lineage → lineage.length ≤ bound)
    (h : IsLineage nodes lineage) : (lineage.map (·.id)).Nodup := by
  induction lineage with
  | nil => exact List.nodup_nil
  | cons first above ih =>
      rw [List.map_cons, List.nodup_cons]
      refine ⟨fun hmem => ?_, ih h.tail⟩
      obtain ⟨node, hnode, hid⟩ := List.mem_map.1 hmem
      obtain ⟨front, back, rfl⟩ := List.append_of_mem hnode
      obtain ⟨longer, hlonger, hlength⟩ := h.exists_length_ge hid.symm (bound + 1)
      have := hbound longer hlonger
      omega

end Lineage

/-! ### All lineages -/

/-- The lineages of a node and of everything below it, in the order in which a depth-first walk
meets them.  `depth` bounds how far down the walk goes. -/
def lineagesBelow (nodes : List Node) :
    (depth : Nat) → (above : List Node) → Node → List (List Node)
  | 0, above, node => [node :: above]
  | depth + 1, above, node =>
    (node :: above) ::
      (childrenOf nodes (some node.id)).flatMap (lineagesBelow nodes depth (node :: above))

/-- The lineages that a depth-first walk meets, in its order. -/
def lineages (nodes : List Node) : List (List Node) :=
  (childrenOf nodes none).flatMap (lineagesBelow nodes nodes.length [])

section Walk

variable {nodes : List Node}

theorem mem_lineagesBelow {depth : Nat} {above : List Node} {node : Node} {lineage : List Node}
    (h : IsLineage nodes (node :: above)) :
    lineage ∈ lineagesBelow nodes depth above node ↔
      IsLineage nodes lineage ∧ node :: above <:+ lineage ∧
        lineage.length ≤ above.length + 1 + depth := by
  induction depth generalizing above node with
  | zero =>
      simp only [lineagesBelow, List.mem_singleton]
      constructor
      · rintro rfl
        exact ⟨h, List.suffix_rfl, by simp⟩
      · rintro ⟨_, hsuffix, hlength⟩
        exact (hsuffix.eq_of_length_le (by simpa using hlength)).symm
  | succ depth ih =>
      simp only [lineagesBelow, List.mem_cons, List.mem_flatMap]
      constructor
      · rintro (rfl | ⟨child, hchild, hmem⟩)
        · exact ⟨h, List.suffix_rfl, by simp only [List.length_cons]; omega⟩
        · have hcons : IsLineage nodes (child :: node :: above) := isLineage_cons.2 ⟨hchild, h⟩
          obtain ⟨hlineage, hsuffix, hlength⟩ := (ih hcons).1 hmem
          refine ⟨hlineage, (List.suffix_cons _ _).trans hsuffix, ?_⟩
          simp only [List.length_cons] at hlength
          omega
      · rintro ⟨hlineage, ⟨front, rfl⟩, hlength⟩
        rcases List.eq_nil_or_concat' front with rfl | ⟨front, child, rfl⟩
        · exact .inl rfl
        · have hsuffix : child :: node :: above <:+ front ++ [child] ++ node :: above :=
            ⟨front, by simp⟩
          have hcons := hlineage.of_suffix hsuffix
          refine .inr ⟨child, (isLineage_cons.1 hcons).1, (ih hcons).2 ⟨hlineage, hsuffix, ?_⟩⟩
          simp only [List.length_cons]
          omega

/-- The walk meets every lineage that is at most one node longer than the list of nodes. -/
theorem mem_lineages {lineage : List Node} :
    lineage ∈ lineages nodes ↔
      IsLineage nodes lineage ∧ lineage ≠ [] ∧ lineage.length ≤ nodes.length + 1 := by
  simp only [lineages, List.mem_flatMap]
  constructor
  · rintro ⟨top, htop, hmem⟩
    have hcons : IsLineage nodes [top] := isLineage_cons.2 ⟨htop, trivial⟩
    obtain ⟨hlineage, hsuffix, hlength⟩ := (mem_lineagesBelow hcons).1 hmem
    refine ⟨hlineage, ?_, by simpa [Nat.add_comm] using hlength⟩
    rintro rfl
    simp at hsuffix
  · rintro ⟨hlineage, hne, hlength⟩
    obtain ⟨front, top, rfl⟩ := (List.eq_nil_or_concat' lineage).resolve_left hne
    have hsuffix : [top] <:+ front ++ [top] := ⟨front, rfl⟩
    have hcons := hlineage.of_suffix hsuffix
    refine ⟨top, (isLineage_cons.1 hcons).1, (mem_lineagesBelow hcons).2 ⟨hlineage, hsuffix, ?_⟩⟩
    simpa [Nat.add_comm] using hlength

/-- Where ids are distinct the walk meets every lineage. -/
theorem DistinctIds.cons_mem_lineages (hids : DistinctIds nodes) {node : Node} {above : List Node}
    (h : IsLineage nodes (node :: above)) : node :: above ∈ lineages nodes :=
  mem_lineages.2
    ⟨h, List.cons_ne_nil _ _, Nat.le_succ_of_le (h.length_le hids)⟩

end Walk

end InfraGraph
