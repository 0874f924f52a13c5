import Mathlib.Data.List.Nodup
import Mathlib.Data.List.Perm.Subperm
import Mathlib.Logic.Relation
import InfraGraph.Graph.Layout

/-!
# Parents in a list of nodes

Nodes name their parents by ids, which may come several times or not at all, and a node may lie
below itself.  Whatever they name, every node has at most one parent.  So a chain of parents either
ends, and then at a level that is less than the number of nodes, or it goes on for ever.
-/

namespace InfraGraph

namespace Layout

/-! ### Parents -/

/-- The node at one place is the parent of the node at another place: it has the id that this one
names, and is the last one that has it. -/
structure IsParent (nodes : List Node) (parent child : Nat) : Prop where
  ne : parent ≠ child
  named : ∃ node above, nodes[child]? = some node ∧ nodes[parent]? = some above ∧
    node.parentId = some above.id ∧
    ∀ later other, parent < later → nodes[later]? = some other → other.id ≠ above.id

/-- The chain of parents of the node at a place ends, which is at a node without parent. -/
inductive ChainEnds (nodes : List Node) : (place : Nat) → Prop
  | top {place : Nat} (hplace : place < nodes.length)
    (hnone : ∀ parent, ¬ IsParent nodes parent place) : ChainEnds nodes place
  | child {parent place : Nat} (hparent : IsParent nodes parent place)
    (habove : ChainEnds nodes parent) : ChainEnds nodes place

/-- The places of all children of a node, in their order. -/
structure AreChildren (nodes : List Node) (parent : Nat) (children : List Nat) : Prop where
  ascending : children.Pairwise (· < ·)
  mem_iff : ∀ child, child ∈ children ↔ IsParent nodes parent child

section Parents

variable {nodes : List Node}

/-- The last place of an id, found from the end of the list. -/
theorem lastPlace_eq_some_iff {ids : List String} {id : String} {place : Nat} :
    (ids.reverse.findIdx? (· = id)).map (fun k => ids.length - 1 - k) = some place ↔
      ids[place]? = some id ∧ ∀ later, place < later → ids[later]? ≠ some id := by
  simp only [Option.map_eq_some_iff, List.findIdx?_eq_some_iff_getElem, List.length_reverse,
    List.getElem_reverse, decide_eq_true_eq]
  constructor
  · rintro ⟨k, ⟨hk, hid, hlast⟩, rfl⟩
    refine ⟨List.getElem?_eq_some_iff.2 ⟨by omega, hid⟩, fun later hlater hid' => ?_⟩
    obtain ⟨hlength, hid'⟩ := List.getElem?_eq_some_iff.1 hid'
    refine hlast (ids.length - 1 - later) (by omega) ?_
    simpa only [show ids.length - 1 - (ids.length - 1 - later) = later by omega] using hid'
  · rintro ⟨hid, hlast⟩
    obtain ⟨hlength, hid⟩ := List.getElem?_eq_some_iff.1 hid
    refine ⟨ids.length - 1 - place, ⟨by omega, ?_, fun j hj hid' => ?_⟩, by omega⟩
    · simpa only [show ids.length - 1 - (ids.length - 1 - place) = place by omega] using hid
    · exact hlast (ids.length - 1 - j) (by omega)
        (List.getElem?_eq_some_iff.2 ⟨by omega, hid'⟩)

theorem length_parents (nodes : List Node) : (parents nodes).length = nodes.length := by
  rw [parents, List.length_mapIdx]

theorem parents_eq_some_iff {parent place : Nat} :
    (parents nodes)[place]? = some (some parent) ↔ IsParent nodes parent place := by
  rw [parents, List.getElem?_mapIdx, Option.map_eq_some_iff]
  simp only [Option.bind_eq_some_iff]
  constructor
  · rintro ⟨node, hnode, id, hid, hfound⟩
    split at hfound
    · cases hfound
    · rename_i hne
      obtain ⟨habove, hlast⟩ := lastPlace_eq_some_iff.1 hfound
      rw [List.getElem?_map, Option.map_eq_some_iff] at habove
      obtain ⟨above, habove, rfl⟩ := habove
      refine ⟨?_, node, above, hnode, habove, hid, fun later other hlater hother hsame => ?_⟩
      · rintro rfl
        exact hne hfound
      · refine hlast later hlater ?_
        rw [List.getElem?_map, hother, Option.map_some, hsame]
  · rintro ⟨hne, node, above, hnode, habove, hid, hlast⟩
    have hfound := (@lastPlace_eq_some_iff (nodes.map (·.id)) above.id _).2
      ⟨by rw [List.getElem?_map, habove, Option.map_some], fun later hlater hsame => by
        rw [List.getElem?_map, Option.map_eq_some_iff] at hsame
        obtain ⟨other, hother, hsame⟩ := hsame
        exact hlast later other hlater hother hsame⟩
    refine ⟨node, hnode, above.id, hid, ?_⟩
    rw [hfound, if_neg (by simpa using hne)]

theorem parents_eq_none_iff {place : Nat} :
    (parents nodes)[place]? = some none ↔
      place < nodes.length ∧ ∀ parent, ¬ IsParent nodes parent place := by
  simp only [← parents_eq_some_iff]
  rw [← length_parents nodes]
  cases hplace : (parents nodes)[place]? with
  | none => simp [List.getElem?_eq_none_iff.1 hplace]
  | some parent =>
      have hlength := (List.getElem?_eq_some_iff.1 hplace).1
      cases parent <;> simp [hlength]

/-- The parent of a node is settled by its place. -/
theorem IsParent.unique {parent parent' child : Nat} (h : IsParent nodes parent child)
    (h' : IsParent nodes parent' child) : parent = parent' := by
  rw [← parents_eq_some_iff] at h h'
  exact Option.some.inj (Option.some.inj (h.symm.trans h'))

end Parents

/-! ### Levels -/

/-- The place lies some parents below one without parent. -/
inductive AtLevel (parents : List (Option Nat)) : (level place : Nat) → Prop
  | top {place : Nat} (h : parents[place]? = some none) : AtLevel parents 0 place
  | child {level parent place : Nat} (h : parents[place]? = some (some parent))
    (habove : AtLevel parents level parent) : AtLevel parents (level + 1) place

/-- The second place is the first one, or lies somewhere below it. -/
def IsAbove (parents : List (Option Nat)) : (place below : Nat) → Prop :=
  Relation.ReflTransGen fun parent child => parents[child]? = some (some parent)

section Levels

variable {parents : List (Option Nat)} {level place : Nat}

theorem AtLevel.lt_length (h : AtLevel parents level place) : place < parents.length := by
  cases h with
  | top h => exact (List.getElem?_eq_some_iff.1 h).1
  | child h _ => exact (List.getElem?_eq_some_iff.1 h).1

theorem AtLevel.unique {level' : Nat} (h : AtLevel parents level place)
    (h' : AtLevel parents level' place) : level = level' := by
  induction h generalizing level' with
  | top h =>
      cases h' with
      | top _ => rfl
      | child h' _ =>
          rw [h] at h'
          cases h'
  | child h _ ih =>
      cases h' with
      | top h' =>
          rw [h] at h'
          cases h'
      | child h' habove' =>
          obtain rfl := Option.some.inj (Option.some.inj (h.symm.trans h'))
          rw [ih habove']

/-- A chain of parents meets no place twice, so it isn't longer than the list. -/
theorem AtLevel.level_lt_length (h : AtLevel parents level place) : level < parents.length := by
  suffices hchain : ∃ chain : List Nat, chain.length = level + 1 ∧ chain.Nodup ∧
      ∀ met ∈ chain, ∃ least ≤ level, AtLevel parents least met by
    obtain ⟨chain, hlength, hnodup, hmet⟩ := hchain
    have hsubset : chain ⊆ List.range parents.length := fun met hmem => by
      obtain ⟨_, _, hlevel⟩ := hmet met hmem
      exact List.mem_range.2 hlevel.lt_length
    have := (List.subperm_of_subset hnodup hsubset).length_le
    rw [List.length_range] at this
    omega
  induction h with
  | @top place h => exact ⟨[place], rfl, List.nodup_singleton _, fun met hmem =>
      ⟨0, Nat.le_refl 0, List.mem_singleton.1 hmem ▸ .top h⟩⟩
  | @child level parent place h habove ih =>
      obtain ⟨chain, hlength, hnodup, hmet⟩ := ih
      refine ⟨place :: chain, by rw [List.length_cons, hlength], ?_, ?_⟩
      · refine List.nodup_cons.2 ⟨fun hmem => ?_, hnodup⟩
        obtain ⟨least, hleast, hlevel⟩ := hmet place hmem
        have := hlevel.unique (.child h habove)
        omega
      · rw [List.forall_mem_cons]
        refine ⟨⟨_, Nat.le_refl _, .child h habove⟩, fun met hmem => ?_⟩
        obtain ⟨least, hleast, hlevel⟩ := hmet met hmem
        exact ⟨least, Nat.le_succ_of_le hleast, hlevel⟩

theorem AtLevel.exists_depth (h : AtLevel parents level place) :
    ∃ depth, level + (depth + 1) = parents.length :=
  ⟨parents.length - level - 1, by have := h.level_lt_length; omega⟩

theorem AtLevel.exists_above (h : AtLevel parents level place) :
    ∃ top, parents[top]? = some none ∧ IsAbove parents top place := by
  induction h with
  | top h => exact ⟨_, h, .refl⟩
  | child h _ ih =>
      obtain ⟨top, htop, habove⟩ := ih
      exact ⟨top, htop, habove.tail h⟩

theorem AtLevel.of_isAbove {below : Nat} (h : AtLevel parents level place)
    (habove : IsAbove parents place below) :
    ∃ more, AtLevel parents (level + more) below ∧ (more = 0 → place = below) := by
  induction habove with
  | refl => exact ⟨0, h, fun _ => rfl⟩
  | tail _ hchild ih =>
      obtain ⟨more, hlevel, _⟩ := ih
      exact ⟨more + 1, .child hchild hlevel, fun hzero => absurd hzero (Nat.succ_ne_zero more)⟩

/-- Of the places at one level only one lies above a given place. -/
theorem AtLevel.eq_of_isAbove {place' below : Nat} (h : AtLevel parents level place)
    (h' : AtLevel parents level place') (habove : IsAbove parents place below)
    (habove' : IsAbove parents place' below) : place = place' := by
  induction habove with
  | refl =>
      obtain ⟨more, hlevel, hsame⟩ := h'.of_isAbove habove'
      have := hlevel.unique h
      exact (hsame (by omega)).symm
  | @tail parent child habove hchild ih =>
      rcases Relation.ReflTransGen.cases_tail habove' with rfl | ⟨parent', habove', hchild'⟩
      · obtain ⟨more, hlevel, hsame⟩ := h.of_isAbove (habove.tail hchild)
        have := hlevel.unique h'
        exact hsame (by omega)
      · obtain rfl := Option.some.inj (Option.some.inj (hchild.symm.trans hchild'))
        exact ih habove'

theorem mem_childPlaces {parent : Option Nat} :
    place ∈ childPlaces parents parent ↔ parents[place]? = some parent := by
  rw [childPlaces, List.mem_filter, List.mem_range, decide_eq_true_eq, and_iff_right_iff_imp]
  exact fun h => (List.getElem?_eq_some_iff.1 h).1

theorem pairwise_childPlaces (parents : List (Option Nat)) (parent : Option Nat) :
    (childPlaces parents parent).Pairwise (· < ·) :=
  List.pairwise_lt_range.filter _

theorem nodup_childPlaces (parents : List (Option Nat)) (parent : Option Nat) :
    (childPlaces parents parent).Nodup :=
  (pairwise_childPlaces parents parent).imp Nat.ne_of_lt

end Levels

theorem chainEnds_iff {nodes : List Node} {place : Nat} :
    ChainEnds nodes place ↔ ∃ level, AtLevel (parents nodes) level place := by
  constructor
  · intro h
    induction h with
    | top hplace hnone => exact ⟨0, .top (parents_eq_none_iff.2 ⟨hplace, hnone⟩)⟩
    | child hparent _ ih =>
        obtain ⟨level, hlevel⟩ := ih
        exact ⟨level + 1, .child (parents_eq_some_iff.2 hparent) hlevel⟩
  · rintro ⟨level, h⟩
    induction h with
    | top h =>
        obtain ⟨hplace, hnone⟩ := parents_eq_none_iff.1 h
        exact .top hplace hnone
    | child h _ ih => exact .child (parents_eq_some_iff.1 h) ih

theorem areChildren_childPlaces (nodes : List Node) (parent : Nat) :
    AreChildren nodes parent (childPlaces (parents nodes) (some parent)) :=
  ⟨pairwise_childPlaces _ _, fun _ => mem_childPlaces.trans parents_eq_some_iff⟩

theorem AreChildren.eq_childPlaces {nodes : List Node} {parent : Nat} {children : List Nat}
    (h : AreChildren nodes parent children) :
    children = childPlaces (parents nodes) (some parent) := by
  have hown := areChildren_childPlaces nodes parent
  refine List.Perm.eq_of_pairwise (fun a b _ _ hab hba => absurd hba (Nat.lt_asymm hab))
    h.ascending hown.ascending ?_
  rw [List.perm_ext_iff_of_nodup (h.ascending.imp Nat.ne_of_lt) (hown.ascending.imp Nat.ne_of_lt)]
  exact fun child => (h.mem_iff child).trans (hown.mem_iff child).symm

end Layout

end InfraGraph
