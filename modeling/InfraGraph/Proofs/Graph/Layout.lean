import InfraGraph.Proofs.Failure
import InfraGraph.Proofs.Graph.Parents

/-!
# What laying out gives every node

Boxes are arranged by a recursion of bounded depth from the top down, and then put into the list of
all boxes.  Seen from the outside this solves one equation for each node: a group has the size that
its rows of children need, where the sizes of the children are the ones they end with, and the
children lie where these rows put them.  Nodes whose chain of parents never ends are left where they
were.
-/

namespace InfraGraph

/-- The node with another box. -/
def Node.withFrame (node : Node) (position : Position Float) (size : Size Float) : Node :=
  { node with position := position, size := size }

/-- The box of a node. -/
def Node.frame (node : Node) : Position Float × Size Float :=
  (node.position, node.size)

namespace Layout

variable {α : Type} [Measure α]

theorem size_foldl_setIfInBounds {β : Type} (places : List (Nat × β)) (frames : Array β) :
    (places.foldl (fun frames (place, box) => frames.setIfInBounds place box) frames).size =
      frames.size := by
  induction places generalizing frames with
  | nil => rfl
  | cons first rest ih => rw [List.foldl_cons, ih, Array.size_setIfInBounds]

theorem length_frames (options : LayoutOptions α) (nodes : List Node) :
    (frames options nodes).length = nodes.length := by
  rw [frames, Array.length_toList, size_foldl_setIfInBounds, Array.size_replicate]

/-- Where boxes go depends on ids and parents only. -/
theorem frames_congr (options : LayoutOptions α) {nodes nodes' : List Node}
    (h : nodes.map (fun node => (node.id, node.parentId)) =
      nodes'.map fun node => (node.id, node.parentId)) :
    frames options nodes = frames options nodes' := by
  have hparents : ∀ nodes : List Node, parents nodes =
      (nodes.map fun node => (node.id, node.parentId)).mapIdx fun i key =>
        key.2.bind fun parent =>
          let ids := (nodes.map fun node => (node.id, node.parentId)).map (·.1)
          let found := (ids.reverse.findIdx? (· = parent)).map fun k => ids.length - 1 - k
          if found = some i then none else found := by
    intro nodes
    refine List.ext_getElem (by simp [parents]) fun i h h' => ?_
    simp only [parents, List.getElem_mapIdx, List.getElem_map, List.map_map]
    rfl
  have hlength : nodes.length = nodes'.length := by simpa using congrArg List.length h
  rw [frames, frames, hparents nodes, hparents nodes', h, hlength]

/-! ### Filling in boxes -/

theorem getElem?_foldl_setIfInBounds_of_not_mem {β : Type} {places : List (Nat × β)}
    {frames : Array β} {place : Nat} (h : ∀ box, (place, box) ∉ places) :
    (places.foldl (fun frames (place, box) => frames.setIfInBounds place box) frames)[place]? =
      frames[place]? := by
  induction places generalizing frames with
  | nil => rfl
  | cons first rest ih =>
      obtain ⟨other, box⟩ := first
      have hne : other ≠ place := by
        rintro rfl
        exact h box List.mem_cons_self
      rw [List.foldl_cons, ih fun box hmem => h box (List.mem_cons_of_mem _ hmem)]
      exact Array.getElem?_setIfInBounds_ne hne

/-- Whatever is filled in last for a place, it is one of the boxes for that place. -/
theorem exists_getElem?_foldl_setIfInBounds {β : Type} {places : List (Nat × β)}
    {frames : Array β} {place : Nat} (hplace : place < frames.size)
    (h : ∃ box, (place, box) ∈ places) :
    ∃ box, (place, box) ∈ places ∧
      (places.foldl (fun frames (place, box) => frames.setIfInBounds place box) frames)[place]? =
        some box := by
  induction places generalizing frames with
  | nil => exact absurd h.choose_spec List.not_mem_nil
  | cons first rest ih =>
      obtain ⟨other, box⟩ := first
      rw [List.foldl_cons]
      by_cases hrest : ∃ box, (place, box) ∈ rest
      · obtain ⟨last, hlast, hget⟩ := @ih (frames.setIfInBounds other box)
          (by rwa [Array.size_setIfInBounds]) hrest
        exact ⟨last, List.mem_cons_of_mem _ hlast, hget⟩
      · obtain ⟨own, hown⟩ := h
        have hfirst : (place, own) = (other, box) :=
          (List.mem_cons.1 hown).resolve_right fun hmem => hrest ⟨own, hmem⟩
        obtain ⟨rfl, rfl⟩ := Prod.mk.inj hfirst
        refine ⟨own, hown, ?_⟩
        rw [getElem?_foldl_setIfInBounds_of_not_mem (not_exists.1 hrest)]
        exact Array.getElem?_setIfInBounds_self_of_lt hplace

/-! ### Groups -/

theorem length_placeRow (padding y x : α) (sizes : List (Size α)) :
    (placeRow padding y x sizes).length = sizes.length := by
  induction sizes generalizing x with
  | nil => rfl
  | cons size rest ih => rw [placeRow, List.length_cons, ih, List.length_cons]

theorem length_placeRows (padding gap y : α) (rows : List (List (Size α))) :
    (placeRows padding gap y rows).length = rows.flatten.length := by
  induction rows generalizing gap y with
  | nil => rfl
  | cons row rest ih =>
      rw [placeRows, List.length_append, length_placeRow, ih, List.flatten_cons, List.length_append]

theorem flatten_piecesOf {β : Type} {width : Nat} (hwidth : 0 < width) {fuel : Nat} {l : List β}
    (hfuel : l.length ≤ fuel) : (piecesOf width fuel l).flatten = l := by
  induction fuel generalizing l with
  | zero => rw [List.eq_nil_of_length_eq_zero (Nat.le_zero.1 hfuel)]; rfl
  | succ fuel ih =>
      cases l with
      | nil => rfl
      | cons x rest =>
          have hrest : ((x :: rest).drop width).length ≤ fuel := by
            simp only [List.length_drop, List.length_cons] at hfuel ⊢
            omega
          rw [piecesOf, List.flatten_cons, ih hrest, List.take_append_drop]

theorem flatten_rows {β : Type} (maxColumns : Nat) (children : List β) :
    (rows maxColumns children).flatten = children :=
  flatten_piecesOf (by omega) (Nat.le_refl _)

theorem length_placeChildren (options : LayoutOptions α) (sizes : List (Size α)) :
    (placeChildren options sizes).length = sizes.length := by
  rw [placeChildren, length_placeRows, flatten_rows]

/-- The boxes of the children of a place, as they are arranged. -/
def groupBoxes (options : LayoutOptions α) (parents : List (Option Nat)) (depth place : Nat) :
    List (Position α × Size α) :=
  let sizes := (childPlaces parents (some place)).map fun child =>
    (arrange options parents depth child).1
  (placeChildren options sizes).zip sizes

section Arranged

variable {options : LayoutOptions α} {parents : List (Option Nat)} {level depth place : Nat}

theorem arrange_leaf (h : childPlaces parents (some place) = []) (depth : Nat) :
    arrange options parents depth place = (options.defaultSize, []) := by
  cases depth with
  | zero => rfl
  | succ depth => rw [arrange, if_pos h]

theorem arrange_group (h : childPlaces parents (some place) ≠ []) (depth : Nat) :
    arrange options parents (depth + 1) place =
      (groupSize options (groupBoxes options parents depth place),
        (childPlaces parents (some place)).zip (groupBoxes options parents depth place) ++
          (childPlaces parents (some place)).flatMap fun child =>
            (arrange options parents depth child).2) := by
  rw [arrange, if_neg h]
  simp only [groupBoxes, List.map_map, List.flatMap_map]
  rfl

theorem length_groupBoxes (options : LayoutOptions α) (parents : List (Option Nat))
    (depth place : Nat) :
    (groupBoxes options parents depth place).length =
      (childPlaces parents (some place)).length := by
  simp [groupBoxes, length_placeChildren]

/-- A child is arranged with the size that it has of its own. -/
theorem size_of_mem_groupBoxes {child : Nat} {box : Position α × Size α}
    (h : (child, box) ∈
      (childPlaces parents (some place)).zip (groupBoxes options parents depth place)) :
    parents[child]? = some (some place) ∧
      box.2 = (arrange options parents depth child).1 := by
  refine ⟨mem_childPlaces.1 (List.of_mem_zip h).1, ?_⟩
  obtain ⟨i, hi, hget⟩ := List.mem_iff_getElem.1 h
  obtain ⟨rfl, rfl⟩ := Prod.mk.inj ((List.getElem_zip).symm.trans hget)
  simp [groupBoxes]

theorem exists_mem_groupBoxes {child : Nat} (h : parents[child]? = some (some place))
    (options : LayoutOptions α) (depth : Nat) :
    ∃ box, (child, box) ∈
      (childPlaces parents (some place)).zip (groupBoxes options parents depth place) := by
  obtain ⟨i, hi, rfl⟩ := List.mem_iff_getElem.1 (mem_childPlaces.2 h)
  have hi' : i < (groupBoxes options parents depth place).length := by rwa [length_groupBoxes]
  exact ⟨(groupBoxes options parents depth place)[i], List.mem_iff_getElem.2
    ⟨i, List.length_zip ▸ Nat.lt_min.2 ⟨hi, hi'⟩, List.getElem_zip⟩⟩

/-- What is arranged below a place are the boxes of all groups at and below it. -/
theorem mem_arrange (h : AtLevel parents level place) (hdepth : level + depth = parents.length)
    {found : Nat × Position α × Size α} :
    found ∈ (arrange options parents depth place).2 ↔
      ∃ level' depth' parent, IsAbove parents place parent ∧ AtLevel parents level' parent ∧
        level' + (depth' + 1) = parents.length ∧
        found ∈ (childPlaces parents (some parent)).zip
          (groupBoxes options parents depth' parent) := by
  induction depth generalizing level place with
  | zero =>
      have := h.level_lt_length
      omega
  | succ depth ih =>
      have hchild : ∀ child, parents[child]? = some (some place) →
          AtLevel parents (level + 1) child := fun child hchild => .child hchild h
      by_cases hnone : childPlaces parents (some place) = []
      · rw [arrange_leaf hnone]
        refine iff_of_false List.not_mem_nil ?_
        rintro ⟨level', depth', parent, habove, _, _, hfound⟩
        rcases Relation.ReflTransGen.cases_head habove with rfl | ⟨child, hbelow, _⟩
        · rw [hnone] at hfound
          exact absurd hfound List.not_mem_nil
        · have := mem_childPlaces.2 hbelow
          rw [hnone] at this
          exact absurd this List.not_mem_nil
      rw [arrange_group hnone, List.mem_append, List.mem_flatMap]
      constructor
      · rintro (hfound | ⟨child, hmem, hfound⟩)
        · exact ⟨level, depth, place, .refl, h, hdepth, hfound⟩
        · have hbelow := mem_childPlaces.1 hmem
          obtain ⟨level', depth', parent, habove, hfound⟩ :=
            (ih (hchild child hbelow) (by omega)).1 hfound
          exact ⟨level', depth', parent, .head hbelow habove, hfound⟩
      · rintro ⟨level', depth', parent, habove, hlevel, hsum, hfound⟩
        rcases Relation.ReflTransGen.cases_head habove with rfl | ⟨child, hbelow, habove⟩
        · have := hlevel.unique h
          obtain rfl : depth' = depth := by omega
          exact .inl hfound
        · exact .inr ⟨child, mem_childPlaces.2 hbelow, (ih (hchild child hbelow) (by omega)).2
            ⟨level', depth', parent, habove, hlevel, hsum, hfound⟩⟩

/-- The box that a place gets: at the origin without parent, and otherwise as its parent's group has
it. -/
inductive HasBox (options : LayoutOptions α) (parents : List (Option Nat)) :
    (place : Nat) → Position α × Size α → Prop
  | top {place : Nat} (h : parents[place]? = some none) :
    HasBox options parents place
      (⟨Measure.zero, Measure.zero⟩, (arrange options parents parents.length place).1)
  | child {level depth parent place : Nat} {box : Position α × Size α}
    (hparent : AtLevel parents level parent) (hdepth : level + (depth + 1) = parents.length)
    (hbox : (place, box) ∈ (childPlaces parents (some parent)).zip
      (groupBoxes options parents depth parent)) : HasBox options parents place box

theorem mem_boxes_iff {box : Position α × Size α} :
    (place, box) ∈ boxes options parents ↔ HasBox options parents place box := by
  rw [boxes, List.mem_flatMap]
  constructor
  · rintro ⟨top, htop, hmem⟩
    rcases List.mem_cons.1 hmem with heq | hmem
    · obtain ⟨rfl, rfl⟩ := Prod.mk.inj heq
      exact .top (mem_childPlaces.1 htop)
    · obtain ⟨_, _, _, _, hlevel, hdepth, hbox⟩ :=
        (mem_arrange (.top (mem_childPlaces.1 htop)) (Nat.zero_add _)).1 hmem
      exact .child hlevel hdepth hbox
  · rintro (h | ⟨hparent, hdepth, hbox⟩)
    · exact ⟨place, mem_childPlaces.2 h, List.mem_cons_self⟩
    · obtain ⟨top, htop, habove⟩ := hparent.exists_above
      exact ⟨top, mem_childPlaces.2 htop, List.mem_cons_of_mem _
        ((mem_arrange (.top htop) (Nat.zero_add _)).2
          ⟨_, _, _, habove, hparent, hdepth, hbox⟩)⟩

theorem eq_of_mem_zip {β γ : Type} {l : List β} {m : List γ} (hnodup : l.Nodup) {a : β}
    {b b' : γ} (h : (a, b) ∈ l.zip m) (h' : (a, b') ∈ l.zip m) : b = b' := by
  obtain ⟨i, hi, hget⟩ := List.mem_iff_getElem.1 h
  obtain ⟨j, hj, hget'⟩ := List.mem_iff_getElem.1 h'
  rw [List.getElem_zip] at hget hget'
  obtain ⟨rfl, rfl⟩ := Prod.mk.inj hget
  obtain ⟨hsame, rfl⟩ := Prod.mk.inj hget'
  obtain rfl := (hnodup.getElem_inj_iff).1 hsame
  rfl

theorem HasBox.unique {box box' : Position α × Size α} (h : HasBox options parents place box)
    (h' : HasBox options parents place box') : box = box' := by
  cases h with
  | top h =>
      cases h' with
      | top _ => rfl
      | child _ _ hbox' =>
          rw [(size_of_mem_groupBoxes hbox').1] at h
          cases h
  | child hparent hdepth hbox =>
      have hown := (size_of_mem_groupBoxes hbox).1
      cases h' with
      | top h' =>
          rw [hown] at h'
          cases h'
      | child hparent' hdepth' hbox' =>
          have hown' := (size_of_mem_groupBoxes hbox').1
          obtain rfl := Option.some.inj (Option.some.inj (hown.symm.trans hown'))
          have := hparent.unique hparent'
          obtain rfl : _ = _ := Nat.succ.inj (Nat.add_left_cancel
            (hdepth.trans (this ▸ hdepth'.symm)))
          exact eq_of_mem_zip (nodup_childPlaces _ _) hbox hbox'

/-- A place at some level has a box, with the size that is arranged for the place. -/
theorem AtLevel.exists_hasBox (h : AtLevel parents level place)
    (hdepth : level + depth = parents.length) (options : LayoutOptions α) :
    ∃ position, HasBox options parents place
      (position, (arrange options parents depth place).1) := by
  cases h with
  | top h =>
      obtain rfl : depth = parents.length := by omega
      exact ⟨_, .top h⟩
  | @child level parent _ h habove =>
      obtain ⟨box, hbox⟩ := exists_mem_groupBoxes h options depth
      have hsize := (size_of_mem_groupBoxes hbox).2
      refine ⟨box.1, ?_⟩
      rw [← hsize]
      exact .child habove (by omega) hbox

end Arranged

/-! ### The equations -/

section Frames

variable {options : LayoutOptions α} {nodes : List Node} {place : Nat}

theorem HasBox.exists_atLevel {parents : List (Option Nat)} {box : Position α × Size α}
    (h : HasBox options parents place box) : ∃ level, AtLevel parents level place := by
  cases h with
  | top h => exact ⟨0, .top h⟩
  | child hparent _ hbox => exact ⟨_, .child (size_of_mem_groupBoxes hbox).1 hparent⟩

theorem getElem?_frames {box : Position α × Size α}
    (h : HasBox options (parents nodes) place box) :
    (frames options nodes)[place]? = some box := by
  obtain ⟨level, hlevel⟩ := h.exists_atLevel
  have hplace : place < (Array.replicate nodes.length
      ((⟨Measure.zero, Measure.zero⟩ : Position α), options.defaultSize)).size := by
    rw [Array.size_replicate, ← length_parents]
    exact hlevel.lt_length
  obtain ⟨box', hbox', hget⟩ :=
    exists_getElem?_foldl_setIfInBounds hplace ⟨box, mem_boxes_iff.2 h⟩
  obtain rfl := h.unique (mem_boxes_iff.1 hbox')
  rw [frames, Array.getElem?_toList]
  exact hget

theorem getElem?_frames_of_endless (hplace : place < nodes.length)
    (h : ¬ ChainEnds nodes place) :
    (frames options nodes)[place]? =
      some (⟨Measure.zero, Measure.zero⟩, options.defaultSize) := by
  have hnone : ∀ box, (place, box) ∉ boxes options (parents nodes) := fun box hbox =>
    h (chainEnds_iff.2 (mem_boxes_iff.1 hbox).exists_atLevel)
  rw [frames, Array.getElem?_toList, getElem?_foldl_setIfInBounds_of_not_mem hnone,
    Array.getElem?_replicate, if_pos hplace]

end Frames

/-- The boxes of a list of nodes solve the equations of its layout. -/
structure Solves (options : LayoutOptions α) (nodes : List Node)
    (frames : List (Position α × Size α)) : Prop where
  length_eq : frames.length = nodes.length
  /-- A node without parent lies at the origin. -/
  top : ∀ place, place < nodes.length → (∀ parent, ¬ IsParent nodes parent place) →
    ∃ size, frames[place]? = some (⟨Measure.zero, Measure.zero⟩, size)
  /-- A group has the size that its children need in rows, with the sizes that they have, and the
  children have the positions in these rows. -/
  group : ∀ place children, ChainEnds nodes place → AreChildren nodes place children →
    children ≠ [] → ∃ sizes position,
      children.map (frames[·]?) = ((placeChildren options sizes).zip sizes).map some ∧
      frames[place]? =
        some (position, groupSize options ((placeChildren options sizes).zip sizes))
  /-- A node without children has the size of all such nodes. -/
  leaf : ∀ place, ChainEnds nodes place → (∀ child, ¬ IsParent nodes place child) →
    ∃ position, frames[place]? = some (position, options.defaultSize)
  /-- A node whose chain of parents never ends isn't touched. -/
  endless : ∀ place, place < nodes.length → ¬ ChainEnds nodes place →
    frames[place]? = some (⟨Measure.zero, Measure.zero⟩, options.defaultSize)

theorem frames_solves (options : LayoutOptions α) (nodes : List Node) :
    Solves options nodes (frames options nodes) where
  length_eq := length_frames options nodes
  top place hplace hnone := ⟨_, getElem?_frames (.top (parents_eq_none_iff.2 ⟨hplace, hnone⟩))⟩
  group place children hends hchildren hne := by
    obtain ⟨level, hlevel⟩ := chainEnds_iff.1 hends
    obtain ⟨depth, hdepth⟩ := hlevel.exists_depth
    obtain rfl := hchildren.eq_childPlaces
    obtain ⟨position, hbox⟩ := hlevel.exists_hasBox hdepth options
    rw [arrange_group hne] at hbox
    refine ⟨_, position, ?_, getElem?_frames hbox⟩
    change _ = (groupBoxes options (parents nodes) depth place).map some
    refine List.ext_getElem (by simp [length_groupBoxes]) fun i hi hi' => ?_
    rw [List.getElem_map, List.getElem_map]
    refine getElem?_frames (.child hlevel hdepth (List.mem_iff_getElem.2 ⟨i, ?_, List.getElem_zip⟩))
    rw [List.length_map] at hi hi'
    exact List.length_zip ▸ Nat.lt_min.2 ⟨hi, hi'⟩
  leaf place hends hnone := by
    obtain ⟨level, hlevel⟩ := chainEnds_iff.1 hends
    obtain ⟨depth, hdepth⟩ := hlevel.exists_depth
    obtain ⟨position, hbox⟩ := hlevel.exists_hasBox hdepth options
    have hleaf : childPlaces (parents nodes) (some place) = [] :=
      List.eq_nil_iff_forall_not_mem.2 fun child hchild =>
        hnone child (parents_eq_some_iff.1 (mem_childPlaces.1 hchild))
    rw [arrange_leaf hleaf] at hbox
    exact ⟨position, getElem?_frames hbox⟩
  endless _ hplace hendless := getElem?_frames_of_endless hplace hendless

end Layout

/-- Laying out keeps everything of a node but its box. -/
theorem forall₂_layoutNodes (options : LayoutOptions Float) (nodes : List Node) :
    List.Forall₂ (fun node laid => ∃ position size, laid = node.withFrame position size) nodes
      (layoutNodes options nodes) := by
  have hlength := Layout.length_frames options nodes
  rw [layoutNodes]
  revert hlength
  generalize Layout.frames options nodes = frames
  intro hlength
  induction nodes generalizing frames with
  | nil => exact .nil
  | cons node nodes ih =>
      cases frames with
      | nil => cases hlength
      | cons frame frames =>
          rw [List.length_cons, List.length_cons, Nat.add_right_cancel_iff] at hlength
          exact .cons ⟨frame.1, frame.2, rfl⟩ (ih frames hlength)

theorem map_frame_layoutNodes (options : LayoutOptions Float) (nodes : List Node) :
    (layoutNodes options nodes).map Node.frame = Layout.frames options nodes := by
  rw [layoutNodes, List.map_zipWith]
  have hlength := Layout.length_frames options nodes
  refine List.ext_getElem (by simp [hlength]) fun i h h' => ?_
  rw [List.getElem_zipWith]
  rfl

theorem map_id_layoutNodes (options : LayoutOptions Float) (nodes : List Node) :
    (layoutNodes options nodes).map (·.id) = nodes.map (·.id) := by
  refine map_eq_map_of_forall₂ ((forall₂_layoutNodes options nodes).flip.imp fun laid node h => ?_)
  obtain ⟨position, size, rfl⟩ := h
  rfl

/-- Nodes that were laid out would be laid out in the same way. -/
theorem frames_layoutNodes (options : LayoutOptions Float) (nodes : List Node) :
    Layout.frames options (layoutNodes options nodes) = Layout.frames options nodes := by
  refine Layout.frames_congr options (map_eq_map_of_forall₂ ?_)
  refine (forall₂_layoutNodes options nodes).flip.imp fun laid node h => ?_
  obtain ⟨position, size, rfl⟩ := h
  rfl

end InfraGraph
