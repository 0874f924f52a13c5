import InfraGraph.Graph.Basic

/-!
# Boxes of nodes

The box of a node without children has a fixed size.  The children of a node are put in rows inside
its box, which is made as large as they need.  Positions are those inside the box of the parent.
Lengths may be of any type that can be added and compared, so that the same definition serves for
machine floats and for exact numbers.
-/

namespace InfraGraph

/-- Lengths that can be added and compared. -/
class Measure (α : Type) where
  zero : α
  add : α → α → α
  /-- The larger of two lengths, the first one if neither is larger. -/
  larger : α → α → α

/-- A float that is no number is never the larger one. -/
instance : Measure Float where
  zero := 0
  add x y := x + y
  larger x y := if x.isNaN then y else if x < y then y else x

/-- How boxes are laid out. -/
structure LayoutOptions (α : Type) where
  /-- The most children in one row. -/
  maxColumns : Nat
  /-- The gap to the left of every child, between rows, and behind the last row and column. -/
  padding : α
  /-- The gap above the first row, where the group shows its label. -/
  firstRowPadding : α
  /-- The size of nodes without children. -/
  defaultSize : Size α

/-- The layout of imported graphs. -/
def LayoutOptions.standard : LayoutOptions Float := ⟨2, 30, 55, ⟨150, 54⟩⟩

namespace Layout

variable {α : Type} [Measure α]

/-- Cuts a list into pieces of `width` elements, of which the last one may be shorter.  `fuel`
pieces are cut at most. -/
def piecesOf {β : Type} (width : Nat) : (fuel : Nat) → List β → List (List β)
  | 0, _ => []
  | _, [] => []
  | fuel + 1, x :: rest => (x :: rest).take width :: piecesOf width fuel ((x :: rest).drop width)

/-- Cuts the children of a group into rows. -/
def rows {β : Type} (maxColumns : Nat) (children : List β) : List (List β) :=
  piecesOf (max maxColumns 1) children.length children

/-- The positions of a row at height `y`, of which the part left of `x` is taken. -/
def placeRow (padding y : α) : (x : α) → List (Size α) → List (Position α)
  | _, [] => []
  | x, size :: rest =>
    let left := Measure.add x padding
    ⟨left, y⟩ :: placeRow padding y (Measure.add left size.width) rest

/-- The height of the tallest of some boxes. -/
def tallest (sizes : List (Size α)) : α :=
  sizes.foldl (fun h size => Measure.larger h size.height) Measure.zero

/-- The positions of the boxes in some rows, of which the part above `y` is taken.  `gap` is left
above the first of them. -/
def placeRows (padding : α) : (gap y : α) → List (List (Size α)) → List (Position α)
  | _, _, [] => []
  | gap, y, row :: rest =>
    placeRow padding (Measure.add y gap) Measure.zero row ++
      placeRows padding padding (Measure.add y (Measure.add gap (tallest row))) rest

/-- The positions of the children of a group, given their sizes. -/
def placeChildren (options : LayoutOptions α) (sizes : List (Size α)) : List (Position α) :=
  placeRows options.padding options.firstRowPadding Measure.zero (rows options.maxColumns sizes)

/-- The size of a group with given children, which is the least that leaves a gap behind them. -/
def groupSize (options : LayoutOptions α) (boxes : List (Position α × Size α)) : Size α :=
  let right (box : Position α × Size α) : α := Measure.add box.1.x box.2.width
  let bottom (box : Position α × Size α) : α := Measure.add box.1.y box.2.height
  let width := boxes.foldl (fun w box => Measure.larger w (right box)) Measure.zero
  let height := boxes.foldl (fun h box => Measure.larger h (bottom box)) Measure.zero
  ⟨Measure.add width options.padding, Measure.add height options.padding⟩

/-- The place of the parent of each node in the list of nodes.  If several nodes have the id of the
parent the last one counts, and a node is not its own parent. -/
def parents (nodes : List Node) : List (Option Nat) :=
  let ids := nodes.map (·.id)
  nodes.mapIdx fun i node =>
    node.parentId.bind fun parent =>
      let found := (ids.reverse.findIdx? (· = parent)).map fun k => ids.length - 1 - k
      if found = some i then none else found

/-- The places of the nodes with a given parent, in their order. -/
def childPlaces (parents : List (Option Nat)) (parent : Option Nat) : List Nat :=
  (List.range parents.length).filter fun i => parents[i]? = some parent

/-- The size of a node, and the boxes of everything below it.  Chains of parents are at most as long
as the list of nodes, which bounds `depth`. -/
def arrange (options : LayoutOptions α) (parents : List (Option Nat)) :
    (depth : Nat) → Nat → Size α × List (Nat × Position α × Size α)
  | 0, _ => (options.defaultSize, [])
  | depth + 1, place =>
    let children := childPlaces parents (some place)
    if children = [] then (options.defaultSize, [])
    else
      let inner := children.map fun child => arrange options parents depth child
      let sizes := inner.map (·.1)
      let boxes := (placeChildren options sizes).zip sizes
      (groupSize options boxes, children.zip boxes ++ inner.flatMap (·.2))

/-- The boxes of all nodes whose parents lead to the top. -/
def boxes (options : LayoutOptions α) (parents : List (Option Nat)) :
    List (Nat × Position α × Size α) :=
  (childPlaces parents none).flatMap fun top =>
    let (size, below) := arrange options parents parents.length top
    (top, ⟨Measure.zero, Measure.zero⟩, size) :: below

/-- The position and size of each node, in the order of the nodes. -/
def frames (options : LayoutOptions α) (nodes : List Node) : List (Position α × Size α) :=
  let start : Array (Position α × Size α) :=
    Array.replicate nodes.length (⟨Measure.zero, Measure.zero⟩, options.defaultSize)
  let filled := (boxes options (parents nodes)).foldl
    (fun frames (place, box) => frames.setIfInBounds place box) start
  filled.toList

end Layout

/-- Lays out all nodes.  Nothing but their positions and sizes changes. -/
def layoutNodes (options : LayoutOptions Float) (nodes : List Node) : List Node :=
  nodes.zipWith (fun node frame => { node with position := frame.1, size := frame.2 })
    (Layout.frames options nodes)

end InfraGraph
