import Mathlib.Data.List.Induction
import InfraGraph.Proofs.Graph.PostOrder

/-!
# Sizing groups one after the other

In the order in which a walk is done with places, every group is sized by looking up the sizes of
its children and writing their positions and its own size into two lists.  After each step the lists
have what the equations of the layout say for the places that were dealt with, and what they started
with for all others.  No place that is looked up is missing.  At the end the lists solve the
equations, so these have one solution only, and it doesn't matter that boxes can also be arranged by
a recursion.
-/

namespace InfraGraph.Layout

variable {α : Type} [Measure α]

/-- The positions and the sizes of all nodes. -/
structure Boxes (α : Type) where
  positions : List (Position α)
  sizes : List (Size α)

/-- Writes something at a place, which has to be there. -/
def write? {β : Type} (l : List β) (place : Nat) (b : β) : Option (List β) :=
  if place < l.length then some (l.set place b) else none

/-- Puts the children of a place in rows, with the sizes that they have by now, and sizes the place.
`none` stands for a place that isn't in a list. -/
def sizeGroup (options : LayoutOptions α) (table : List (List Nat)) (boxes : Boxes α)
    (place : Nat) : Option (Boxes α) := do
  let children ← table[place]?
  if children = [] then return boxes
  else
    let sizes ← children.mapM (boxes.sizes[·]?)
    let positions ← (children.zip (placeChildren options sizes)).foldlM
      (fun positions (child, position) => write? positions child position) boxes.positions
    let inner ← children.mapM (positions[·]?)
    return ⟨positions, ← write? boxes.sizes place (groupSize options (inner.zip sizes))⟩

/-- Lays out nodes by a loop over a stack, of which at most `pops` places are taken off. -/
def layOut (options : LayoutOptions α) (nodes : List Node) (pops : Nat) :
    Option (List (Position α × Size α)) := do
  let order ← postOrderOf nodes pops
  let boxes ← order.foldlM (sizeGroup options (childTable (parents nodes)))
    ⟨List.replicate nodes.length ⟨Measure.zero, Measure.zero⟩,
      List.replicate nodes.length options.defaultSize⟩
  return boxes.positions.zip boxes.sizes

section Write

variable {β : Type}

/-- Writing at several places, all of which are there. -/
theorem foldlM_write? {l : List β} {entries : List (Nat × β)}
    (h : ∀ entry ∈ entries, entry.1 < l.length) :
    entries.foldlM (fun l (entry : Nat × β) => write? l entry.1 entry.2) l =
      some (entries.foldl (fun l (entry : Nat × β) => l.set entry.1 entry.2) l) := by
  induction entries generalizing l with
  | nil => rfl
  | cons entry rest ih =>
      rw [List.forall_mem_cons] at h
      rw [List.foldlM_cons, List.foldl_cons, write?, if_pos h.1]
      exact ih (by simpa using h.2)

/-- What was written last at a place is there, and all other places are as they were. -/
theorem getElem?_foldl_set {places : List Nat} {values : List β} (hnodup : places.Nodup)
    (hlength : places.length = values.length) (l : List β) (place : Nat) :
    ((places.zip values).foldl (fun l (entry : Nat × β) => l.set entry.1 entry.2) l)[place]? =
      if place ∈ places then (l[place]?).bind fun _ => values[places.idxOf place]?
      else l[place]? := by
  induction places generalizing values l with
  | nil => rfl
  | cons first places ih =>
      cases values with
      | nil => cases hlength
      | cons value values =>
          rw [List.nodup_cons] at hnodup
          rw [List.zip_cons_cons, List.foldl_cons,
            ih hnodup.2 (by simpa using hlength), List.getElem?_set]
          by_cases hplace : first = place
          · subst hplace
            rw [if_neg hnodup.1, if_pos rfl, if_pos List.mem_cons_self, List.idxOf_cons_self]
            by_cases hin : first < l.length
            · simp [hin]
            · simp [hin]
          · have hmem : place ∈ first :: places ↔ place ∈ places := by simp [Ne.symm hplace]
            rw [if_neg hplace, if_congr hmem rfl rfl]
            split
            · rw [List.idxOf_cons_ne _ hplace, List.getElem?_cons_succ]
            · rfl

end Write

/-! ### Where the loop has come to -/

/-- The boxes when some places were dealt with, given those that the loop is to come to. -/
def progress (options : LayoutOptions α) (nodes : List Node) (final : List (Position α × Size α))
    (done : List Nat) : Boxes α where
  positions := final.mapIdx fun place box =>
    if ∃ parent ∈ done, (parents nodes)[place]? = some (some parent) then box.1
    else ⟨Measure.zero, Measure.zero⟩
  sizes := final.mapIdx fun place box => if place ∈ done then box.2 else options.defaultSize

section Progress

variable {options : LayoutOptions α} {nodes : List Node} {final : List (Position α × Size α)}
  {front back : List Nat} {place : Nat}

theorem getElem?_positions_progress (done : List Nat) (i : Nat) :
    (progress options nodes final done).positions[i]? = final[i]?.map fun box =>
      if ∃ parent ∈ done, (parents nodes)[i]? = some (some parent) then box.1
      else ⟨Measure.zero, Measure.zero⟩ := by
  rw [progress, List.getElem?_mapIdx]

theorem getElem?_sizes_progress (done : List Nat) (i : Nat) :
    (progress options nodes final done).sizes[i]? = final[i]?.map fun box =>
      if i ∈ done then box.2 else options.defaultSize := by
  rw [progress, List.getElem?_mapIdx]

/-- Before the first step nothing was written. -/
theorem progress_nil (hsolves : Solves options nodes final) :
    progress options nodes final [] = ⟨List.replicate nodes.length ⟨Measure.zero, Measure.zero⟩,
      List.replicate nodes.length options.defaultSize⟩ := by
  have hlength := hsolves.length_eq
  simp only [progress, Boxes.mk.injEq]
  constructor <;> exact List.ext_getElem (by simp [hlength]) fun i h h' => by simp

/-- When all places whose chains of parents end were dealt with, the loop has come to the end. -/
theorem progress_order (hsolves : Solves options nodes final) {order : List Nat}
    (horder : IsPostOrder nodes order) :
    progress options nodes final order = ⟨final.map (·.1), final.map (·.2)⟩ := by
  have hbox : ∀ i box, final[i]? = some box →
      (if ∃ parent ∈ order, (parents nodes)[i]? = some (some parent) then box.1
        else ⟨Measure.zero, Measure.zero⟩) = box.1 ∧
      (if i ∈ order then box.2 else options.defaultSize) = box.2 := by
    intro i box hbox
    have hi : i < nodes.length := hsolves.length_eq ▸ (List.getElem?_eq_some_iff.1 hbox).1
    by_cases hends : ChainEnds nodes i
    · rw [if_pos ((horder.mem_iff i).2 hends)]
      refine ⟨?_, rfl⟩
      cases hends with
      | top _ hnone =>
          obtain ⟨size, htop⟩ := hsolves.top i hi hnone
          obtain rfl := Option.some.inj (hbox.symm.trans htop)
          exact ite_self _
      | child hparent habove =>
          exact if_pos ⟨_, (horder.mem_iff _).2 habove, parents_eq_some_iff.2 hparent⟩
    · obtain rfl := Option.some.inj (hbox.symm.trans (hsolves.endless i hi hends))
      exact ⟨ite_self _, ite_self _⟩
  rw [progress, Boxes.mk.injEq]
  constructor
  · refine List.ext_getElem? fun i => ?_
    rw [List.getElem?_mapIdx, List.getElem?_map]
    exact Option.map_congr fun box hmem => (hbox i box hmem).1
  · refine List.ext_getElem? fun i => ?_
    rw [List.getElem?_mapIdx, List.getElem?_map]
    exact Option.map_congr fun box hmem => (hbox i box hmem).2

/-- A place without children changes nothing when it is dealt with. -/
theorem progress_leaf (hsolves : Solves options nodes final) (hends : ChainEnds nodes place)
    (hleaf : ∀ child, ¬ IsParent nodes place child) :
    progress options nodes final (front ++ [place]) = progress options nodes final front := by
  obtain ⟨position, hplace⟩ := hsolves.leaf place hends hleaf
  simp only [← parents_eq_some_iff] at hleaf
  rw [progress, progress, Boxes.mk.injEq]
  constructor
  · refine List.ext_getElem? fun i => ?_
    have hsame : (∃ parent ∈ front ++ [place], (parents nodes)[i]? = some (some parent)) ↔
        ∃ parent ∈ front, (parents nodes)[i]? = some (some parent) := by
      simp [or_and_right, exists_or, hleaf]
    simp only [List.getElem?_mapIdx, hsame]
  · refine List.ext_getElem? fun i => ?_
    rw [List.getElem?_mapIdx, List.getElem?_mapIdx]
    by_cases hi : i = place
    · subst hi
      simp [hplace]
    · simp [hi]

/-- Writing the positions of its children is what changes positions when a place is dealt with. -/
theorem positions_progress_concat {children : List Nat} {positions : List (Position α)}
    (hchildren : children = childPlaces (parents nodes) (some place))
    (hpositions : children.map (fun child => final[child]?.map (·.1)) = positions.map some) :
    (children.zip positions).foldl (fun l (entry : Nat × Position α) => l.set entry.1 entry.2)
        (progress options nodes final front).positions =
      (progress options nodes final (front ++ [place])).positions := by
  have hnodup : children.Nodup := hchildren ▸ nodup_childPlaces _ _
  have hlength : children.length = positions.length := by
    simpa using congrArg List.length hpositions
  refine List.ext_getElem? fun i => ?_
  rw [getElem?_foldl_set hnodup hlength, getElem?_positions_progress, getElem?_positions_progress]
  by_cases hi : i ∈ children
  · have hparent : (parents nodes)[i]? = some (some place) :=
      mem_childPlaces.1 (hchildren ▸ hi)
    have hindex := List.idxOf_lt_length_of_mem hi
    have hindex' : children.idxOf i < positions.length := hlength ▸ hindex
    have hwritten : final[i]?.map (·.1) = some positions[children.idxOf i] := by
      have := congrArg (·[children.idxOf i]?) hpositions
      simpa only [List.getElem?_map, List.getElem?_eq_getElem hindex, List.getElem_idxOf,
        Option.map_some, List.getElem?_eq_getElem hindex', Option.some.injEq] using this
    obtain ⟨box, hbox, hvalue⟩ := Option.map_eq_some_iff.1 hwritten
    rw [if_pos hi, hbox, List.getElem?_eq_getElem hindex', ← hvalue]
    simp [hparent]
  · have hparent : (parents nodes)[i]? ≠ some (some place) := fun h =>
      hi (hchildren ▸ mem_childPlaces.2 h)
    rw [if_neg hi]
    simp [or_and_right, exists_or, hparent]

/-- Writing the size of a place is what changes sizes when it is dealt with. -/
theorem sizes_progress_concat {position : Position α} {size : Size α}
    (hplace : final[place]? = some (position, size)) :
    write? (progress options nodes final front).sizes place size =
      some (progress options nodes final (front ++ [place])).sizes := by
  have hin := (List.getElem?_eq_some_iff.1 hplace).1
  rw [write?, if_pos (by simpa [progress] using hin), Option.some.injEq]
  refine List.ext_getElem? fun i => ?_
  rw [List.getElem?_set, getElem?_sizes_progress, getElem?_sizes_progress]
  by_cases hi : place = i
  · subst hi
    rw [if_pos rfl, if_pos (by simpa [progress] using hin), hplace]
    simp
  · simp [hi, Ne.symm hi]

/-- One step: a place that comes behind its children is dealt with. -/
theorem sizeGroup_progress (hsolves : Solves options nodes final) (hends : ChainEnds nodes place)
    (hbefore : ∀ child, IsParent nodes place child → child ∈ front) :
    sizeGroup options (childTable (parents nodes)) (progress options nodes final front) place =
      some (progress options nodes final (front ++ [place])) := by
  have hin : place < (parents nodes).length := length_parents nodes ▸ hends.lt_length
  have hmem : ∀ child, child ∈ childPlaces (parents nodes) (some place) ↔
      IsParent nodes place child := (areChildren_childPlaces nodes place).mem_iff
  rw [sizeGroup, getElem?_childTable hin]
  by_cases hnone : childPlaces (parents nodes) (some place) = []
  · have hleaf : ∀ child, ¬ IsParent nodes place child := fun child hchild => by
      simpa [hnone] using (hmem child).2 hchild
    simp [hnone, progress_leaf hsolves hends hleaf]
  · obtain ⟨sizes, position, hboxes, hplace⟩ :=
      hsolves.group place _ hends (areChildren_childPlaces nodes place) hnone
    have hlength := length_placeChildren options sizes
    have hpositions : (childPlaces (parents nodes) (some place)).map
        (fun child => final[child]?.map (·.1)) = (placeChildren options sizes).map some := by
      have := congrArg (List.map (Option.map Prod.fst)) hboxes
      rw [List.map_map, List.map_map] at this
      refine this.trans ?_
      conv_rhs => rw [← List.map_fst_zip (Nat.le_of_eq hlength), List.map_map]
      rfl
    have hsizes : (childPlaces (parents nodes) (some place)).map
        (fun child => final[child]?.map (·.2)) = sizes.map some := by
      have := congrArg (List.map (Option.map Prod.snd)) hboxes
      rw [List.map_map, List.map_map] at this
      refine this.trans ?_
      conv_rhs => rw [← List.map_snd_zip (Nat.le_of_eq hlength.symm), List.map_map]
      rfl
    -- The children were dealt with before, so their sizes are known.
    have hknown : (childPlaces (parents nodes) (some place)).mapM
        ((progress options nodes final front).sizes[·]?) = some sizes := by
      refine mapM_eq_some_iff_map_eq.2 ?_
      rw [← hsizes]
      refine List.map_congr_left fun child hchild => ?_
      simp [getElem?_sizes_progress, hbefore child ((hmem child).1 hchild)]
    -- Their positions are those that were just written.
    have hplaced : (childPlaces (parents nodes) (some place)).mapM
        ((progress options nodes final (front ++ [place])).positions[·]?) =
          some (placeChildren options sizes) := by
      refine mapM_eq_some_iff_map_eq.2 ?_
      rw [← hpositions]
      refine List.map_congr_left fun child hchild => ?_
      simp [getElem?_positions_progress, mem_childPlaces.1 hchild]
    have hwritable : ∀ entry ∈ (childPlaces (parents nodes) (some place)).zip
        (placeChildren options sizes),
        entry.1 < (progress options nodes final front).positions.length := by
      intro entry hentry
      have hchild := (hmem _).1 (List.of_mem_zip hentry).1
      have hin := (ChainEnds.child hchild hends).lt_length
      simpa [progress, hsolves.length_eq] using hin
    simp only [Option.bind_eq_bind, Option.bind_some, if_neg hnone, hknown,
      foldlM_write? hwritable, positions_progress_concat rfl hpositions, hplaced,
      sizes_progress_concat hplace]
    rfl

/-- Along an order that has children first, the loop is where it is to come to after every step. -/
theorem foldlM_sizeGroup (hsolves : Solves options nodes final) {order : List Nat}
    (horder : IsPostOrder nodes order) (hsplit : order = front ++ back) :
    front.foldlM (sizeGroup options (childTable (parents nodes)))
        (progress options nodes final []) =
      some (progress options nodes final front) := by
  induction front using List.reverseRecOn generalizing back with
  | nil => rfl
  | append_singleton front place ih =>
      rw [List.append_assoc] at hsplit
      have hends : ChainEnds nodes place := (horder.mem_iff place).1 (by simp [hsplit])
      rw [List.foldlM_append, ih hsplit]
      simp [sizeGroup_progress hsolves hends (horder.children_before front place back hsplit)]

/-- Whatever solves the equations is what the loop comes to. -/
theorem Solves.layOut_eq (hsolves : Solves options nodes final) :
    layOut options nodes (2 * nodes.length) = some final := by
  obtain ⟨order, hwalk, horder⟩ := exists_postOrderOf nodes
  have hsized := foldlM_sizeGroup hsolves horder (List.append_nil order).symm
  rw [progress_nil hsolves, progress_order hsolves horder] at hsized
  rw [layOut, hwalk, Option.bind_eq_bind, Option.bind_some, hsized]
  exact congrArg some (List.zip_of_prod rfl rfl).symm

end Progress

end InfraGraph.Layout

namespace InfraGraph

/-- Laying out, for every list of nodes and all options.  The loop over a stack is over when it has
taken off each node twice, its order has children first, and groups are sized in this order without
a place that is missing.  The boxes it comes to are those of the nodes that were laid out.  They
solve the equations of the layout, which have no other solution, and nothing else of a node
changes. -/
theorem layoutNodes_solves (options : LayoutOptions Float) (nodes : List Node) :
    (∃ order, Layout.postOrderOf nodes (2 * nodes.length) = some order ∧
      Layout.IsPostOrder nodes order) ∧
    Layout.layOut options nodes (2 * nodes.length) =
      some ((layoutNodes options nodes).map Node.frame) ∧
    (∀ frames, Layout.Solves options nodes frames ↔
      frames = (layoutNodes options nodes).map Node.frame) ∧
    List.Forall₂ (fun node laid => ∃ position size, laid = node.withFrame position size) nodes
      (layoutNodes options nodes) := by
  have hsolves := Layout.frames_solves options nodes
  rw [map_frame_layoutNodes]
  refine ⟨Layout.exists_postOrderOf nodes, hsolves.layOut_eq, fun frames => ⟨fun h => ?_, ?_⟩,
    forall₂_layoutNodes options nodes⟩
  · exact Option.some.inj (h.layOut_eq.symm.trans hsolves.layOut_eq)
  · rintro rfl
    exact hsolves

end InfraGraph
