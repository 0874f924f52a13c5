import Mathlib.Algebra.BigOperators.Group.List.Basic
import Mathlib.Algebra.Order.BigOperators.Group.List
import Mathlib.Algebra.Order.Group.Int
import Mathlib.Algebra.Order.Monoid.Unbundled.Pow
import Mathlib.Order.Bounds.Defs
import Mathlib.Tactic.Abel
import InfraGraph.Proofs.Failure
import InfraGraph.Proofs.Graph.Layout

/-!
# Children fit their group

With exact lengths the boxes of a group's children can be read off the running offsets that place
them.  In a row every box starts a gap behind the end of the one before, and every row starts a gap
below the tallest box of the row before.  So boxes don't overlap, and the group, which is as large
as the boxes that reach furthest, is one trailing gap larger than its rows.

Sizes aren't negative, as they are either that of nodes without children or those of groups, and
the furthest box of a group is looked for from zero on.
-/

namespace InfraGraph

/-- Exact lengths. -/
instance (priority := low) Measure.exact {α : Type} [AddCommGroup α] [LinearOrder α] :
    Measure α where
  zero := 0
  add := (· + ·)
  larger := max

/-- An extent that isn't negative. -/
structure Size.Nonneg {α : Type} [AddCommGroup α] [LinearOrder α] (size : Size α) : Prop where
  width : 0 ≤ size.width
  height : 0 ≤ size.height

namespace Layout

/-! ### What it means to fit -/

/-- Full rows, of which only the last one may be shorter. -/
structure AreRows {β : Type} (width : Nat) (rows : List (List β)) : Prop where
  full : ∀ row ∈ rows.dropLast, row.length = width
  bounded : ∀ row ∈ rows, row ≠ [] ∧ row.length ≤ width

section Definitions

variable {α : Type} [AddCommGroup α]

/-- The room for some boxes beside one another, with a gap for each of them. -/
def rowWidth (padding : α) (row : List (Size α)) : α :=
  (row.map fun size => size.width + padding).sum

/-- The room for some rows below one another, with a gap between them. -/
def rowsHeight (padding : α) (heights : List α) : α :=
  heights.sum + (heights.length - 1) • padding

@[simp] theorem rowWidth_nil (padding : α) : rowWidth padding [] = 0 := rfl

@[simp] theorem rowWidth_cons (padding : α) (size : Size α) (row : List (Size α)) :
    rowWidth padding (size :: row) = size.width + padding + rowWidth padding row :=
  rfl

@[simp] theorem rowsHeight_singleton (padding height : α) :
    rowsHeight padding [height] = height := by
  simp [rowsHeight]

theorem rowsHeight_cons_cons (padding height next : α) (heights : List α) :
    rowsHeight padding (height :: next :: heights) =
      height + padding + rowsHeight padding (next :: heights) := by
  simp only [rowsHeight, List.sum_cons, List.length_cons, Nat.add_sub_cancel, succ_nsmul]
  abel

variable [LinearOrder α]

/-- Rows of boxes don't overlap, lie inside their group, and the group is no larger than they
need. -/
structure Fits (options : LayoutOptions α) (rows : List (List (Position α × Size α)))
    (group : Size α) : Prop where
  /-- Boxes of one row are a gap apart, from left to right. -/
  beside : ∀ row ∈ rows, row.Pairwise fun box next =>
    box.1.x + box.2.width + options.padding ≤ next.1.x
  /-- Boxes of different rows are a gap apart, from top to bottom. -/
  below : rows.Pairwise fun row later => ∀ box ∈ row, ∀ next ∈ later,
    box.1.y + box.2.height + options.padding ≤ next.1.y
  left : ∀ row ∈ rows, ∀ box ∈ row, options.padding ≤ box.1.x
  upper : ∀ row ∈ rows, ∀ box ∈ row, options.firstRowPadding ≤ box.1.y
  right : ∀ row ∈ rows, ∀ box ∈ row, box.1.x + box.2.width + options.padding ≤ group.width
  lower : ∀ row ∈ rows, ∀ box ∈ row, box.1.y + box.2.height + options.padding ≤ group.height
  width_eq : ∃ widest, IsGreatest {width | ∃ row ∈ rows,
    rowWidth options.padding (row.map (·.2)) = width} widest ∧
      group.width = widest + options.padding
  height_eq : ∃ heights, List.Forall₂ (fun row height =>
    IsGreatest {h | ∃ box ∈ row, box.2.height = h} height) rows heights ∧
      group.height =
        options.firstRowPadding + rowsHeight options.padding heights + options.padding

end Definitions

/-! ### Cutting into rows -/

section Rows

variable {β γ : Type} {width : Nat}

theorem areRows_piecesOf (hwidth : 0 < width) (fuel : Nat) (l : List β) :
    AreRows width (piecesOf width fuel l) := by
  induction fuel generalizing l with
  | zero => exact ⟨fun _ h => absurd h List.not_mem_nil, fun _ h => absurd h List.not_mem_nil⟩
  | succ fuel ih =>
      cases l with
      | nil => exact ⟨fun _ h => absurd h List.not_mem_nil, fun _ h => absurd h List.not_mem_nil⟩
      | cons x rest =>
          have hrest := ih ((x :: rest).drop width)
          rw [piecesOf]
          refine ⟨fun row hrow => ?_, List.forall_mem_cons.2 ⟨⟨?_, ?_⟩, hrest.bounded⟩⟩
          · -- A piece that isn't the last one leaves something behind it.
            cases hpieces : piecesOf width fuel ((x :: rest).drop width) with
            | nil => rw [hpieces] at hrow; exact absurd hrow List.not_mem_nil
            | cons next pieces =>
                rw [hpieces, List.dropLast_cons_cons, List.mem_cons] at hrow
                rcases hrow with rfl | hrow
                · rw [List.length_take, min_eq_left]
                  by_contra hshort
                  rw [List.drop_eq_nil_of_le (by omega)] at hpieces
                  cases fuel <;> cases hpieces
                · exact hrest.full row (by rwa [hpieces])
          · rw [ne_eq, List.take_eq_nil_iff]
            rintro (h | h)
            · omega
            · cases h
          · exact List.length_take_le width (x :: rest)

theorem areRows_rows (maxColumns : Nat) (l : List β) :
    AreRows (max maxColumns 1) (rows maxColumns l) :=
  areRows_piecesOf (by omega) _ l

/-- Whether rows are full can be seen from what becomes of their elements. -/
theorem AreRows.of_map {rows : List (List β)} {f : β → γ}
    (h : AreRows width (rows.map (List.map f))) : AreRows width rows := by
  constructor
  · intro row hrow
    have := h.full (row.map f) (by rw [← List.map_dropLast]; exact List.mem_map_of_mem hrow)
    rwa [List.length_map] at this
  · intro row hrow
    have := h.bounded (row.map f) (List.mem_map_of_mem hrow)
    rwa [List.length_map, ne_eq, List.map_eq_nil_iff] at this

end Rows

/-! ### Offsets -/

section Exact

variable {α : Type} [AddCommGroup α] [LinearOrder α]

/-- The boxes of a row at height `y`, of which the part left of `x` is taken. -/
def rowBoxes (padding y x : α) (row : List (Size α)) : List (Position α × Size α) :=
  (placeRow padding y x row).zip row

/-- The boxes in some rows, of which the part above `y` is taken. -/
def rowsBoxes (padding : α) :
    (gap y : α) → List (List (Size α)) → List (List (Position α × Size α))
  | _, _, [] => []
  | gap, y, row :: rest =>
    rowBoxes padding (y + gap) 0 row :: rowsBoxes padding padding (y + (gap + tallest row)) rest

variable {padding gap y x : α} {row : List (Size α)} {rows : List (List (Size α))}
  {box : Position α × Size α}

theorem rowBoxes_cons (padding y x : α) (size : Size α) (row : List (Size α)) :
    rowBoxes padding y x (size :: row) =
      (⟨x + padding, y⟩, size) :: rowBoxes padding y (x + padding + size.width) row :=
  rfl

theorem map_rowBoxes (padding y x : α) (row : List (Size α)) :
    (rowBoxes padding y x row).map (·.2) = row :=
  List.map_snd_zip (Nat.le_of_eq (length_placeRow padding y x row).symm)

theorem map_rowsBoxes (padding gap y : α) (rows : List (List (Size α))) :
    (rowsBoxes padding gap y rows).map (List.map (·.2)) = rows := by
  induction rows generalizing gap y with
  | nil => rfl
  | cons row rest ih => rw [rowsBoxes, List.map_cons, map_rowBoxes, ih]

theorem zip_placeRows (padding gap y : α) (rows : List (List (Size α))) :
    (placeRows padding gap y rows).zip rows.flatten =
      (rowsBoxes padding gap y rows).flatten := by
  induction rows generalizing gap y with
  | nil => rfl
  | cons row rest ih =>
      rw [placeRows, List.flatten_cons, List.zip_append (length_placeRow ..), ih]
      rfl

/-- Every row is placed on its own, at some height. -/
theorem forall₂_rowsBoxes (padding gap y : α) (rows : List (List (Size α))) :
    List.Forall₂ (fun row boxRow => ∃ top, boxRow = rowBoxes padding top 0 row) rows
      (rowsBoxes padding gap y rows) := by
  induction rows generalizing gap y with
  | nil => exact .nil
  | cons row rest ih => exact .cons ⟨_, rfl⟩ (ih _ _)

/-- The last box of a row ends where the row does. -/
theorem exists_mem_rowBoxes (hne : row ≠ []) :
    ∃ box ∈ rowBoxes padding y x row, box.1.x + box.2.width = x + rowWidth padding row := by
  induction row generalizing x with
  | nil => exact absurd rfl hne
  | cons size row ih =>
      rw [rowBoxes_cons]
      cases row with
      | nil =>
          refine ⟨_, List.mem_cons_self, ?_⟩
          rw [rowWidth_cons, rowWidth_nil, add_zero, add_comm size.width]
          exact add_assoc x padding size.width
      | cons next row =>
          obtain ⟨box, hbox, hend⟩ :=
            ih (x := x + padding + size.width) (List.cons_ne_nil next row)
          refine ⟨box, List.mem_cons_of_mem _ hbox, hend.trans ?_⟩
          rw [rowWidth_cons padding size]
          abel

/-- The largest of some values is found from any value on. -/
theorem isGreatest_foldl_larger {β : Type} (f : β → α) (least : α) (l : List β) :
    IsGreatest {value | value = least ∨ ∃ b ∈ l, f b = value}
      (l.foldl (fun most b => Measure.larger most (f b)) least) := by
  induction l generalizing least with
  | nil => exact ⟨.inl rfl, fun value hvalue => by simpa using Eq.le (by simpa using hvalue)⟩
  | cons b rest ih =>
      obtain ⟨hmem, hupper⟩ := ih (max least (f b))
      have hfirst : max least (f b) ≤ _ := hupper (.inl rfl)
      refine ⟨?_, ?_⟩
      · rcases hmem with hmem | ⟨c, hc, hmem⟩
        · rcases max_choice least (f b) with hmax | hmax
          · exact .inl (hmem.trans hmax)
          · exact .inr ⟨b, List.mem_cons_self, (hmem.trans hmax).symm⟩
        · exact .inr ⟨c, List.mem_cons_of_mem _ hc, hmem⟩
      · rintro value (rfl | ⟨c, hc, rfl⟩)
        · exact (le_max_left _ _).trans hfirst
        · rcases List.mem_cons.1 hc with rfl | hc
          · exact (le_max_right _ _).trans hfirst
          · exact hupper (.inr ⟨c, hc, rfl⟩)

/-- The boxes that reach furthest say how large a group is. -/
theorem exists_groupSize (options : LayoutOptions α) (boxes : List (Position α × Size α)) :
    ∃ furthest lowest,
      IsGreatest {right | right = 0 ∨ ∃ box ∈ boxes, box.1.x + box.2.width = right} furthest ∧
      IsGreatest {bottom | bottom = 0 ∨ ∃ box ∈ boxes, box.1.y + box.2.height = bottom} lowest ∧
      groupSize options boxes = ⟨furthest + options.padding, lowest + options.padding⟩ :=
  ⟨_, _, isGreatest_foldl_larger (fun box => box.1.x + box.2.width) 0 boxes,
    isGreatest_foldl_larger (fun box => box.1.y + box.2.height) 0 boxes, rfl⟩

theorem tallest_nonneg (row : List (Size α)) : 0 ≤ tallest row :=
  (isGreatest_foldl_larger Size.height 0 row).2 (.inl rfl)

theorem height_le_tallest {size : Size α} (h : size ∈ row) : size.height ≤ tallest row :=
  (isGreatest_foldl_larger Size.height 0 row).2 (.inr ⟨size, h, rfl⟩)

theorem isGreatest_tallest (hne : row ≠ []) (hheight : ∀ size ∈ row, 0 ≤ size.height) :
    IsGreatest {height | ∃ size ∈ row, size.height = height} (tallest row) := by
  refine ⟨?_, ?_⟩
  · rcases (isGreatest_foldl_larger Size.height 0 row).1 with hzero | hsome
    · obtain ⟨size, hsize⟩ := List.exists_mem_of_ne_nil row hne
      have hle := height_le_tallest hsize
      exact ⟨size, hsize, le_antisymm hle (le_of_eq_of_le hzero (hheight size hsize))⟩
    · exact hsome
  · rintro _ ⟨size, hsize, rfl⟩
    exact height_le_tallest hsize

variable [IsOrderedAddMonoid α]

/-! ### One row -/

theorem rowWidth_nonneg (hpadding : 0 ≤ padding) (hwidth : ∀ size ∈ row, 0 ≤ size.width) :
    0 ≤ rowWidth padding row :=
  List.sum_nonneg fun room hroom => by
    obtain ⟨size, hsize, rfl⟩ := List.mem_map.1 hroom
    exact add_nonneg (hwidth size hsize) hpadding

theorem mem_rowBoxes (hpadding : 0 ≤ padding) (hwidth : ∀ size ∈ row, 0 ≤ size.width)
    (h : box ∈ rowBoxes padding y x row) :
    box.1.y = y ∧ x + padding ≤ box.1.x ∧
      box.1.x + box.2.width ≤ x + rowWidth padding row := by
  induction row generalizing x with
  | nil => exact absurd h List.not_mem_nil
  | cons size row ih =>
      rw [List.forall_mem_cons] at hwidth
      have hrest := rowWidth_nonneg hpadding hwidth.2
      rw [rowBoxes_cons, List.mem_cons] at h
      rcases h with rfl | h
      · refine ⟨rfl, le_rfl, ?_⟩
        calc x + padding + size.width
            ≤ x + padding + size.width + rowWidth padding row := le_add_of_nonneg_right hrest
          _ = x + rowWidth padding (size :: row) := by rw [rowWidth_cons]; abel
      · obtain ⟨hy, hleft, hright⟩ := ih hwidth.2 h
        refine ⟨hy, ?_, ?_⟩
        · calc x + padding ≤ x + padding + size.width := le_add_of_nonneg_right hwidth.1
            _ ≤ x + padding + size.width + padding := le_add_of_nonneg_right hpadding
            _ ≤ box.1.x := hleft
        · calc box.1.x + box.2.width
              ≤ x + padding + size.width + rowWidth padding row := hright
            _ = x + rowWidth padding (size :: row) := by rw [rowWidth_cons]; abel

theorem pairwise_rowBoxes (hpadding : 0 ≤ padding) (hwidth : ∀ size ∈ row, 0 ≤ size.width) :
    (rowBoxes padding y x row).Pairwise fun box next =>
      box.1.x + box.2.width + padding ≤ next.1.x := by
  induction row generalizing x with
  | nil => exact .nil
  | cons size row ih =>
      rw [List.forall_mem_cons] at hwidth
      rw [rowBoxes_cons]
      exact .cons (fun next hnext => (mem_rowBoxes hpadding hwidth.2 hnext).2.1) (ih hwidth.2)

/-! ### All rows -/

/-- Nothing is placed above the gap. -/
theorem le_y_of_mem_rowsBoxes (hpadding : 0 ≤ padding)
    {boxRow : List (Position α × Size α)} (h : boxRow ∈ rowsBoxes padding gap y rows)
    (hbox : box ∈ boxRow) (hwidth : ∀ row ∈ rows, ∀ size ∈ row, 0 ≤ size.width) :
    y + gap ≤ box.1.y := by
  induction rows generalizing gap y with
  | nil => exact absurd h List.not_mem_nil
  | cons row rest ih =>
      rw [List.forall_mem_cons] at hwidth
      rw [rowsBoxes, List.mem_cons] at h
      rcases h with rfl | h
      · exact (mem_rowBoxes hpadding hwidth.1 hbox).1.ge
      · calc y + gap ≤ y + gap + tallest row := le_add_of_nonneg_right (tallest_nonneg row)
          _ ≤ y + gap + tallest row + padding := le_add_of_nonneg_right hpadding
          _ = y + (gap + tallest row) + padding := by abel
          _ ≤ box.1.y := ih h hwidth.2

/-- A box of a row ends above the end of the tallest one. -/
theorem bottom_le_of_mem_rowBoxes (hpadding : 0 ≤ padding)
    (hwidth : ∀ size ∈ row, 0 ≤ size.width) (h : box ∈ rowBoxes padding y x row) :
    box.1.y + box.2.height ≤ y + tallest row := by
  rw [(mem_rowBoxes hpadding hwidth h).1]
  exact add_le_add_right (height_le_tallest (List.of_mem_zip h).2) y

theorem pairwise_rowsBoxes (hpadding : 0 ≤ padding)
    (hwidth : ∀ row ∈ rows, ∀ size ∈ row, 0 ≤ size.width) :
    (rowsBoxes padding gap y rows).Pairwise fun row later => ∀ box ∈ row, ∀ next ∈ later,
      box.1.y + box.2.height + padding ≤ next.1.y := by
  induction rows generalizing gap y with
  | nil => exact .nil
  | cons row rest ih =>
      rw [List.forall_mem_cons] at hwidth
      refine .cons (fun later hlater box hbox next hnext => ?_) (ih hwidth.2)
      calc box.1.y + box.2.height + padding
          ≤ y + gap + tallest row + padding :=
            add_le_add_left (bottom_le_of_mem_rowBoxes hpadding hwidth.1 hbox) padding
        _ = y + (gap + tallest row) + padding := by abel
        _ ≤ next.1.y := le_y_of_mem_rowsBoxes hpadding hlater hnext hwidth.2

theorem rowsHeight_nonneg (hpadding : 0 ≤ padding) {heights : List α}
    (hheights : ∀ height ∈ heights, 0 ≤ height) : 0 ≤ rowsHeight padding heights :=
  add_nonneg (List.sum_nonneg hheights) (nsmul_nonneg hpadding _)

/-- No box ends below the rows. -/
theorem bottom_le_of_mem_rowsBoxes (hpadding : 0 ≤ padding)
    {boxRow : List (Position α × Size α)} (h : boxRow ∈ rowsBoxes padding gap y rows)
    (hbox : box ∈ boxRow) (hwidth : ∀ row ∈ rows, ∀ size ∈ row, 0 ≤ size.width) :
    box.1.y + box.2.height ≤ y + gap + rowsHeight padding (rows.map tallest) := by
  induction rows generalizing gap y with
  | nil => exact absurd h List.not_mem_nil
  | cons row rest ih =>
      rw [List.forall_mem_cons] at hwidth
      have hend : box ∈ rowBoxes padding (y + gap) 0 row →
          box.1.y + box.2.height ≤ y + gap + tallest row :=
        bottom_le_of_mem_rowBoxes hpadding hwidth.1
      rw [rowsBoxes, List.mem_cons] at h
      cases rest with
      | nil =>
          rcases h with rfl | h
          · simpa using hend hbox
          · exact absurd h List.not_mem_nil
      | cons next rest =>
          have hheight : 0 ≤ rowsHeight padding ((next :: rest).map tallest) :=
            rowsHeight_nonneg hpadding (List.forall_mem_map.2 fun row _ => tallest_nonneg row)
          have hsplit : rowsHeight padding ((row :: next :: rest).map tallest) =
              tallest row + padding + rowsHeight padding ((next :: rest).map tallest) :=
            rowsHeight_cons_cons padding _ _ _
          rw [hsplit]
          rcases h with rfl | h
          · calc box.1.y + box.2.height ≤ y + gap + tallest row := hend hbox
              _ ≤ y + gap + tallest row +
                    (padding + rowsHeight padding ((next :: rest).map tallest)) :=
                le_add_of_nonneg_right (add_nonneg hpadding hheight)
              _ = _ := by abel
          · calc box.1.y + box.2.height
                ≤ y + (gap + tallest row) + padding +
                    rowsHeight padding ((next :: rest).map tallest) := ih h hwidth.2
              _ = _ := by abel

/-- The tallest box of the last row ends where the rows do. -/
theorem exists_bottom_rowsBoxes (hpadding : 0 ≤ padding) (hne : rows ≠ [])
    (hrows : ∀ row ∈ rows, row ≠ [])
    (hsizes : ∀ row ∈ rows, ∀ size ∈ row, size.Nonneg) :
    ∃ boxRow ∈ rowsBoxes padding gap y rows, ∃ box ∈ boxRow,
      box.1.y + box.2.height = y + gap + rowsHeight padding (rows.map tallest) := by
  induction rows generalizing gap y with
  | nil => exact absurd rfl hne
  | cons row rest ih =>
      rw [List.forall_mem_cons] at hrows hsizes
      rw [rowsBoxes]
      cases rest with
      | nil =>
          obtain ⟨size, hsize, htallest⟩ :=
            (isGreatest_tallest hrows.1 fun size hsize => (hsizes.1 size hsize).height).1
          rw [← map_rowBoxes padding (y + gap) 0 row] at hsize
          obtain ⟨box, hbox, rfl⟩ := List.mem_map.1 hsize
          refine ⟨_, List.mem_cons_self, box, hbox, ?_⟩
          have htop := (mem_rowBoxes hpadding
            (fun size hsize => (hsizes.1 size hsize).width) hbox).1
          rw [htop, htallest, List.map_singleton, rowsHeight_singleton]
      | cons next rest =>
          obtain ⟨boxRow, hrow, box, hbox, hend⟩ :=
            @ih padding (y + (gap + tallest row)) (List.cons_ne_nil _ _) hrows.2 hsizes.2
          have hsplit : rowsHeight padding ((row :: next :: rest).map tallest) =
              tallest row + padding + rowsHeight padding ((next :: rest).map tallest) :=
            rowsHeight_cons_cons padding _ _ _
          refine ⟨boxRow, List.mem_cons_of_mem _ hrow, box, hbox, hend.trans ?_⟩
          rw [hsplit]
          abel

/-! ### Groups -/

/-- The box that reaches furthest to the right is the last one of the widest row. -/
theorem isGreatest_rowWidth (hpadding : 0 ≤ padding) (hne : rows ≠ [])
    (hrows : ∀ row ∈ rows, row ≠ []) (hwidth : ∀ row ∈ rows, ∀ size ∈ row, 0 ≤ size.width)
    {furthest : α} (h : IsGreatest {right | right = 0 ∨
      ∃ box ∈ (rowsBoxes padding gap y rows).flatten, box.1.x + box.2.width = right} furthest) :
    IsGreatest {width | ∃ row ∈ rows, rowWidth padding row = width} furthest := by
  have hall := forall₂_rowsBoxes padding gap y rows
  have hupper : ∀ row ∈ rows, rowWidth padding row ≤ furthest := by
    intro row hrow
    obtain ⟨_, hboxRow, top, rfl⟩ := exists_mem_of_forall₂ hall hrow
    obtain ⟨box, hbox, hend⟩ : ∃ box ∈ rowBoxes padding top 0 row,
        box.1.x + box.2.width = 0 + rowWidth padding row :=
      exists_mem_rowBoxes (hrows row hrow)
    rw [zero_add] at hend
    exact hend ▸ h.2 (.inr ⟨box, List.mem_flatten_of_mem hboxRow hbox, rfl⟩)
  have hlower : ∃ row ∈ rows, furthest ≤ rowWidth padding row := by
    rcases h.1 with rfl | ⟨box, hbox, rfl⟩
    · obtain ⟨row, hrow⟩ := List.exists_mem_of_ne_nil rows hne
      exact ⟨row, hrow, rowWidth_nonneg hpadding (hwidth row hrow)⟩
    · obtain ⟨boxRow, hboxRow, hbox⟩ := List.mem_flatten.1 hbox
      obtain ⟨row, hrow, top, rfl⟩ := exists_mem_of_forall₂ hall.flip hboxRow
      have hend := (mem_rowBoxes hpadding (hwidth row hrow) hbox).2.2
      exact ⟨row, hrow, hend.trans_eq (zero_add _)⟩
  refine ⟨?_, ?_⟩
  · obtain ⟨row, hrow, hle⟩ := hlower
    exact ⟨row, hrow, le_antisymm (hupper row hrow) hle⟩
  · rintro _ ⟨row, hrow, rfl⟩
    exact hupper row hrow

/-- The box that reaches furthest to the bottom is the tallest one of the last row. -/
theorem lowest_eq_rowsHeight (hpadding : 0 ≤ padding) (hgap : 0 ≤ gap) (hne : rows ≠ [])
    (hrows : ∀ row ∈ rows, row ≠ []) (hsizes : ∀ row ∈ rows, ∀ size ∈ row, size.Nonneg)
    {lowest : α} (h : IsGreatest {bottom | bottom = 0 ∨
      ∃ box ∈ (rowsBoxes padding gap 0 rows).flatten, box.1.y + box.2.height = bottom} lowest) :
    lowest = gap + rowsHeight padding (rows.map tallest) := by
  have hheight : 0 ≤ rowsHeight padding (rows.map tallest) :=
    rowsHeight_nonneg hpadding (List.forall_mem_map.2 fun row _ => tallest_nonneg row)
  refine le_antisymm ?_ ?_
  · rcases h.1 with rfl | ⟨box, hbox, rfl⟩
    · exact add_nonneg hgap hheight
    · obtain ⟨boxRow, hboxRow, hbox⟩ := List.mem_flatten.1 hbox
      have hend := bottom_le_of_mem_rowsBoxes hpadding hboxRow hbox
        fun row hrow size hsize => (hsizes row hrow size hsize).width
      rwa [zero_add] at hend
  · obtain ⟨boxRow, hboxRow, box, hbox, hend⟩ : ∃ boxRow ∈ rowsBoxes padding gap 0 rows,
        ∃ box ∈ boxRow, box.1.y + box.2.height = 0 + gap + rowsHeight padding (rows.map tallest) :=
      exists_bottom_rowsBoxes hpadding hne hrows hsizes
    rw [zero_add] at hend
    exact hend ▸ h.2 (.inr ⟨box, List.mem_flatten_of_mem hboxRow hbox, rfl⟩)

section Group

variable {options : LayoutOptions α}

theorem groupSize_nonneg (hpadding : 0 ≤ options.padding)
    (boxes : List (Position α × Size α)) : (groupSize options boxes).Nonneg := by
  obtain ⟨furthest, lowest, hright, hbottom, hsize⟩ := exists_groupSize options boxes
  rw [hsize]
  exact ⟨add_nonneg (hright.2 (.inl rfl)) hpadding, add_nonneg (hbottom.2 (.inl rfl)) hpadding⟩

/-- Boxes that are placed in rows fit the group that is sized for them. -/
theorem fits_groupSize (hpadding : 0 ≤ options.padding) (hfirst : 0 ≤ options.firstRowPadding)
    (hne : rows ≠ []) (hrows : ∀ row ∈ rows, row ≠ [])
    (hsizes : ∀ row ∈ rows, ∀ size ∈ row, size.Nonneg) :
    Fits options (rowsBoxes options.padding options.firstRowPadding 0 rows)
      (groupSize options
        (rowsBoxes options.padding options.firstRowPadding 0 rows).flatten) := by
  have hwidths : ∀ row ∈ rows, ∀ size ∈ row, 0 ≤ size.width :=
    fun row hrow size hsize => (hsizes row hrow size hsize).width
  have hall := forall₂_rowsBoxes options.padding options.firstRowPadding 0 rows
  obtain ⟨furthest, lowest, hright, hbottom, hsize⟩ := exists_groupSize options
    (rowsBoxes options.padding options.firstRowPadding 0 rows).flatten
  rw [hsize]
  constructor
  case beside =>
    intro boxRow hboxRow
    obtain ⟨row, hrow, top, rfl⟩ := exists_mem_of_forall₂ hall.flip hboxRow
    exact pairwise_rowBoxes hpadding (hwidths row hrow)
  case below => exact pairwise_rowsBoxes hpadding hwidths
  case left =>
    intro boxRow hboxRow box hbox
    obtain ⟨row, hrow, top, rfl⟩ := exists_mem_of_forall₂ hall.flip hboxRow
    simpa using (mem_rowBoxes hpadding (hwidths row hrow) hbox).2.1
  case upper =>
    intro boxRow hboxRow box hbox
    simpa using le_y_of_mem_rowsBoxes hpadding hboxRow hbox hwidths
  case right =>
    intro boxRow hboxRow box hbox
    exact add_le_add_left
      (hright.2 (.inr ⟨box, List.mem_flatten_of_mem hboxRow hbox, rfl⟩)) _
  case lower =>
    intro boxRow hboxRow box hbox
    exact add_le_add_left
      (hbottom.2 (.inr ⟨box, List.mem_flatten_of_mem hboxRow hbox, rfl⟩)) _
  case width_eq =>
    have hwidest := isGreatest_rowWidth hpadding hne hrows hwidths hright
    rw [← map_rowsBoxes options.padding options.firstRowPadding 0 rows] at hwidest
    exact ⟨furthest, by simpa using hwidest, rfl⟩
  case height_eq =>
    have htallest : List.Forall₂
        (fun row height => IsGreatest {h | ∃ size ∈ row, size.height = h} height)
        ((rowsBoxes options.padding options.firstRowPadding 0 rows).map (List.map (·.2)))
        (rows.map tallest) := by
      rw [map_rowsBoxes, List.forall₂_map_right_iff, List.forall₂_same]
      exact fun row hrow => isGreatest_tallest (hrows row hrow) fun size hsize =>
        (hsizes row hrow size hsize).height
    refine ⟨rows.map tallest, ?_, ?_⟩
    · rw [List.forall₂_map_left_iff] at htallest
      simpa only [List.mem_map, exists_exists_and_eq_and] using htallest
    · rw [lowest_eq_rowsHeight hpadding hfirst hne hrows hsizes hbottom]

/-- Every size of a layout is that of nodes without children or that of a group. -/
theorem Solves.size_nonneg {nodes : List Node} {frames : List (Position α × Size α)}
    (h : Solves options nodes frames) (hpadding : 0 ≤ options.padding)
    (hdefault : options.defaultSize.Nonneg) {place : Nat} (hbox : frames[place]? = some box) :
    box.2.Nonneg := by
  have hplace : place < nodes.length := h.length_eq ▸ (List.getElem?_eq_some_iff.1 hbox).1
  by_cases hends : ChainEnds nodes place
  · have hchildren := areChildren_childPlaces nodes place
    by_cases hnone : childPlaces (parents nodes) (some place) = []
    · obtain ⟨position, hleaf⟩ := h.leaf place hends fun child hchild => by
        simpa [hnone] using (hchildren.mem_iff child).2 hchild
      obtain rfl := Option.some.inj (hbox.symm.trans hleaf)
      exact hdefault
    · obtain ⟨sizes, position, -, hgroup⟩ := h.group place _ hends hchildren hnone
      obtain rfl := Option.some.inj (hbox.symm.trans hgroup)
      exact groupSize_nonneg hpadding _
  · obtain rfl := Option.some.inj (hbox.symm.trans (h.endless place hplace hends))
    exact hdefault

/-- The children of every group that is laid out are cut into rows, which fit the group. -/
theorem exists_fits_frames (options : LayoutOptions α) (nodes : List Node)
    (hpadding : 0 ≤ options.padding) (hfirst : 0 ≤ options.firstRowPadding)
    (hdefault : options.defaultSize.Nonneg) {place : Nat} {children : List Nat}
    (hends : ChainEnds nodes place) (hchildren : AreChildren nodes place children)
    (hne : children ≠ []) :
    ∃ boxRows position size, AreRows (max options.maxColumns 1) boxRows ∧
      children.map ((frames options nodes)[·]?) = boxRows.flatten.map some ∧
      (frames options nodes)[place]? = some (position, size) ∧ Fits options boxRows size := by
  have hsolves := frames_solves options nodes
  obtain ⟨sizes, position, hboxes, hplace⟩ := hsolves.group place children hends hchildren hne
  have hcut := areRows_rows options.maxColumns sizes
  have hflatten := flatten_rows options.maxColumns sizes
  have hzip : (placeChildren options sizes).zip sizes =
      (rowsBoxes options.padding options.firstRowPadding 0
        (rows options.maxColumns sizes)).flatten := by
    rw [← zip_placeRows, hflatten]
    rfl
  -- The sizes are those that the children end with.
  have hsizes : ∀ row ∈ rows options.maxColumns sizes, ∀ size ∈ row, size.Nonneg := by
    intro row hrow size hsize
    have hmem : size ∈ ((placeChildren options sizes).zip sizes).map (·.2) := by
      rw [List.map_snd_zip (Nat.le_of_eq (length_placeChildren options sizes).symm), ← hflatten]
      exact List.mem_flatten_of_mem hrow hsize
    obtain ⟨box, hbox, rfl⟩ := List.mem_map.1 hmem
    have hchild := List.mem_map_of_mem (f := some) hbox
    rw [← hboxes] at hchild
    obtain ⟨child, -, hchild⟩ := List.mem_map.1 hchild
    exact hsolves.size_nonneg hpadding hdefault hchild
  have hrowsNe : rows options.maxColumns sizes ≠ [] := by
    intro hnone
    rw [hzip, hnone] at hboxes
    exact hne (List.map_eq_nil_iff.1 hboxes)
  rw [hzip] at hboxes hplace
  refine ⟨_, position, _, AreRows.of_map (f := (·.2)) ?_, hboxes, hplace,
    fits_groupSize hpadding hfirst hrowsNe (fun row hrow => (hcut.bounded row hrow).1) hsizes⟩
  rwa [map_rowsBoxes]

end Group

end Exact

end Layout

/-! ### A group inside a group -/

namespace NestedGroups

def options : LayoutOptions Int := ⟨2, 30, 55, ⟨150, 54⟩⟩

def node (id : String) (parentId : Option String) : Node :=
  ⟨id, .folder, parentId, 0, id, .empty, .empty, [], .origin, .none⟩

/-- Three children in two rows, of which the first one is a group of its own. -/
def nodes : List Node := [
  node "group" none,
  node "inner" (some "group"),
  node "second" (some "group"),
  node "third" (some "group"),
  node "leaf" (some "inner")
]

theorem frames_nodes : Layout.frames options nodes = [
    (⟨0, 0⟩, ⟨450, 308⟩),
    (⟨30, 55⟩, ⟨210, 139⟩),
    (⟨270, 55⟩, ⟨150, 54⟩),
    (⟨30, 224⟩, ⟨150, 54⟩),
    (⟨30, 55⟩, ⟨150, 54⟩)] := by
  decide +kernel

theorem chainEnds_group : Layout.ChainEnds nodes 0 :=
  Layout.chainEnds_iff.2 ⟨0, .top (by decide +kernel)⟩

theorem areChildren_group : Layout.AreChildren nodes 0 [1, 2, 3] := by
  have hchildren : Layout.childPlaces (Layout.parents nodes) (some 0) = [1, 2, 3] := by
    decide +kernel
  exact hchildren ▸ Layout.areChildren_childPlaces nodes 0

/-- The children of the outer group fit it. -/
theorem exists_fits : Layout.ChainEnds nodes 0 ∧ Layout.AreChildren nodes 0 [1, 2, 3] ∧
    ∃ boxRows, Layout.AreRows 2 boxRows ∧
      boxRows.flatten = [
        (⟨30, 55⟩, ⟨210, 139⟩), (⟨270, 55⟩, ⟨150, 54⟩), (⟨30, 224⟩, ⟨150, 54⟩)] ∧
      Layout.Fits options boxRows ⟨450, 308⟩ := by
  refine ⟨chainEnds_group, areChildren_group, ?_⟩
  obtain ⟨boxRows, position, size, hrows, hchildren, hplace, hfits⟩ :=
    Layout.exists_fits_frames options nodes (by decide) (by decide) ⟨by decide, by decide⟩
      chainEnds_group areChildren_group (by decide)
  rw [frames_nodes] at hchildren hplace
  obtain ⟨rfl, rfl⟩ := Prod.mk.inj (Option.some.inj hplace)
  exact ⟨boxRows, hrows, List.map_injective_iff.2 (Option.some_injective _) hchildren.symm, hfits⟩

end NestedGroups

end InfraGraph
