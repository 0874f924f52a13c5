import InfraGraph.Proofs.Import.Saved
import InfraGraph.Proofs.Json.Whole

/-!
# Graphs that come back

A graph with whole coordinates comes back from its text with all texts, maps, lists and edges that
it had, and with the types unless a module is named like a builtin type.  The coordinates come back
too, unless ten times one of them is so large that too much of it is lost when it is rounded.
-/

namespace InfraGraph

open Decimal (IsWhole)

/-- If it is a whole number, the coordinate comes back from its text. -/
def IsKeptCoordinate (x : Float) : Prop :=
  ∀ k, IsWhole x k → Decimal.Binary.IsTenfoldKept k

theorem exists_readsAs {x : Float} {k : ℕ} (h : IsWhole x k) (hk : k < 2 ^ 53) :
    ∃ y, ReadsAs x y ∧ (y = x ↔ IsKeptCoordinate x) := by
  obtain ⟨y, hread, hsame⟩ := Json.exists_float?_ofFloat_of_isWhole h hk
  refine ⟨y, hread, hsame.trans ⟨fun hkept j hj => ?_, fun hkept => hkept k h⟩⟩
  rwa [hj.unique h]

namespace Node

/-- All numbers that a node is written with, but for its depth. -/
def coordinates (n : Node) : List Float :=
  [n.position.x, n.position.y, n.size.width, n.size.height]

/-- The depth of the node fits, its type is given by the name, and its coordinates are whole. -/
structure IsExact (n : Node) : Prop where
  depth : n.depth ≤ maxDepth
  type : ∀ module ∈ n.type.module?, module ∉ NodeType.builtin.map NodeType.name
  whole : ∀ x ∈ n.coordinates, ∃ k < 2 ^ 53, IsWhole x k

/-- The same node, in a place of its own. -/
def placed (n : Node) (position : Position Float) (size : Size Float) : Node :=
  { n with position, size }

variable {n : Node}

/-- The node comes back in a place that is the same if the coordinates come back. -/
theorem IsExact.exists_isReadAs (h : n.IsExact) :
    ∃ position size, n.IsReadAs (n.placed position size) ∧
      (n.placed position size = n ↔ ∀ x ∈ n.coordinates, IsKeptCoordinate x) := by
  have hwhole := h.whole
  simp only [coordinates, List.forall_mem_cons, List.not_mem_nil, false_imp_iff, implies_true,
    and_true] at hwhole ⊢
  obtain ⟨⟨_, hxk, hx⟩, ⟨_, hyk, hy⟩, ⟨_, hwidthk, hwidth⟩, _, hheightk, hheight⟩ := hwhole
  obtain ⟨x, hx, hxsame⟩ := exists_readsAs hx hxk
  obtain ⟨y, hy, hysame⟩ := exists_readsAs hy hyk
  obtain ⟨width, hwidth, hwidthsame⟩ := exists_readsAs hwidth hwidthk
  obtain ⟨height, hheight, hheightsame⟩ := exists_readsAs hheight hheightk
  refine ⟨⟨x, y⟩, ⟨width, height⟩, ⟨rfl, (NodeType.ofName_name_iff.2 h.type).symm, rfl, rfl, rfl,
    rfl, rfl, rfl, ⟨hx, hy⟩, ⟨hwidth, hheight⟩⟩, ?_⟩
  rw [← hxsame, ← hysame, ← hwidthsame, ← hheightsame]
  constructor
  · intro hsame
    have hposition := congrArg Node.position hsame
    have hsize := congrArg Node.size hsame
    exact ⟨congrArg Position.x hposition, congrArg Position.y hposition,
      congrArg Size.width hsize, congrArg Size.height hsize⟩
  · rintro ⟨rfl, rfl, rfl, rfl⟩
    rfl

end Node

theorem eq_iff_of_forall₂ {α : Type} {P : α → Prop} {l m : List α}
    (h : List.Forall₂ (fun a b => b = a ↔ P a) l m) : m = l ↔ ∀ a ∈ l, P a := by
  induction h with
  | nil => simp
  | cons h _ ih => rw [List.cons.injEq, h, ih, List.forall_mem_cons]

namespace Graph

/-- The texts that the graph is written as, on one line and over several ones. -/
def texts (g : Graph) : List String :=
  [g.toJson.compactText, g.toJson.prettyText]

theorem parse?_of_mem_texts {g read : Graph} {text : String} (h : text ∈ g.texts) :
    parse? text = some read ↔
      List.Forall₂ (fun n r : Node => n.depth ≤ Node.maxDepth ∧ n.IsReadAs r) g.nodes read.nodes ∧
        read.edges = g.edges := by
  rcases List.mem_pair.1 h with rfl | rfl
  · rw [parse?, Json.parse?_compactText g.readable_toJson, Option.bind_some, ofJson?_toJson]
  · exact parse?_prettyText

/-- The coordinates of all nodes come back. -/
def IsKept (g : Graph) : Prop :=
  ∀ n ∈ g.nodes, ∀ x ∈ n.coordinates, IsKeptCoordinate x

theorem exists_parse?_of_mem_texts {g : Graph} (hexact : ∀ n ∈ g.nodes, n.IsExact) {text : String}
    (htext : text ∈ g.texts) : ∃ read, parse? text = some read ∧ read.edges = g.edges ∧
      List.Forall₂ (fun n r : Node => ∃ position size, r = n.placed position size)
        g.nodes read.nodes ∧ (read = g ↔ g.IsKept) := by
  have hpartner : ∀ n ∈ g.nodes, ∃ r : Node, (n.depth ≤ Node.maxDepth ∧ n.IsReadAs r) ∧
      (∃ position size, r = n.placed position size) ∧
        (r = n ↔ ∀ x ∈ n.coordinates, IsKeptCoordinate x) := by
    intro n hn
    obtain ⟨position, size, hread, hsame⟩ := (hexact n hn).exists_isReadAs
    exact ⟨_, ⟨(hexact n hn).depth, hread⟩, ⟨position, size, rfl⟩, hsame⟩
  obtain ⟨nodes, hnodes⟩ := exists_forall₂_iff.2 hpartner
  have hread : parse? text = some ⟨nodes, g.edges⟩ :=
    (parse?_of_mem_texts htext).2 ⟨hnodes.imp fun _ _ h => h.1, rfl⟩
  refine ⟨⟨nodes, g.edges⟩, hread, rfl, hnodes.imp fun _ _ h => h.2.1, ?_⟩
  have hsame := eq_iff_of_forall₂ (hnodes.imp fun _ _ h => h.2.2)
  rw [IsKept, ← hsame]
  obtain ⟨own, edges⟩ := g
  simp

/-- A graph whose coordinates are whole is read from its text with all that it has, and with its
nodes in places of their own.  It comes back exactly if all coordinates do, and so does the graph
that any text stands for. -/
theorem parse?_eq_some_iff_isKept {g : Graph} (hexact : ∀ n ∈ g.nodes, n.IsExact) {text : String}
    (htext : text ∈ g.texts) :
    (∃ read, parse? text = some read ∧ read.edges = g.edges ∧
      List.Forall₂ (fun n r : Node => ∃ position size, r = n.placed position size)
        g.nodes read.nodes) ∧
      (parse? text = some g ↔ g.IsKept) ∧
      ∀ source, parse? source = some g → (parse? text = parse? source ↔ g.IsKept) := by
  obtain ⟨read, hread, hedges, hnodes, hsame⟩ := exists_parse?_of_mem_texts hexact htext
  have hcomes : parse? text = some g ↔ g.IsKept := by
    rw [hread, Option.some.injEq, hsame]
  exact ⟨⟨read, hread, hedges, hnodes⟩, hcomes, fun source hsource => by rw [hsource, hcomes]⟩

end Graph

namespace LargeFolder

/-- A folder that lies at the first coordinate. -/
def graph (x : Float) : Graph where
  nodes := [{ id := "a", type := .folder, parentId := none, depth := 0, label := "x",
              locals := .empty, inputs := .empty, files := [], position := ⟨x, .ofBits 0⟩,
              size := ⟨.ofBits 0, .ofBits 0⟩ }]
  edges := []

/-- The number `1801439850948198`. -/
def unrounded : Float :=
  .ofBits 0x4319999999999998

/-- The number `1801439850948199`, which is the first that has ten times itself rounded. -/
def rounded : Float :=
  .ofBits 0x431999999999999C

theorem isWhole_of_magnitude {x : Float} {b : Decimal.Binary} {k : ℕ}
    (hfinite : Decimal.isFinite x = true) (hmagnitude : Decimal.magnitude x = b)
    (hvalue : b.value = k) : IsWhole x k :=
  ⟨hfinite, hmagnitude ▸ hvalue⟩

theorem isWhole_zero : IsWhole (.ofBits 0) 0 :=
  isWhole_of_magnitude (b := .zero) (by decide +kernel) (by decide +kernel)
    (by norm_num [Decimal.Binary.value, Decimal.Binary.zero])

theorem isWhole_unrounded : IsWhole unrounded 1801439850948198 :=
  isWhole_of_magnitude (b := ⟨7205759403792792, -2⟩) (by decide +kernel) (by decide +kernel)
    (by norm_num [Decimal.Binary.value])

theorem isWhole_rounded : IsWhole rounded 1801439850948199 :=
  isWhole_of_magnitude (b := ⟨7205759403792796, -2⟩) (by decide +kernel) (by decide +kernel)
    (by norm_num [Decimal.Binary.value])

theorem isExact_graph {x : Float} {k : ℕ} (h : IsWhole x k) (hk : k < 2 ^ 53) :
    ∀ n ∈ (graph x).nodes, n.IsExact := by
  rw [graph, List.forall_mem_singleton]
  have hzero : ∃ k < 2 ^ 53, IsWhole (.ofBits 0) k := ⟨0, by decide, isWhole_zero⟩
  refine ⟨Nat.zero_le _, by simp [NodeType.module?], ?_⟩
  simp only [Node.coordinates, List.forall_mem_cons]
  exact ⟨⟨k, hk, h⟩, hzero, hzero, hzero, by simp⟩

theorem isKept_graph_iff {x : Float} {k : ℕ} (h : IsWhole x k) :
    (graph x).IsKept ↔ Decimal.Binary.IsTenfoldKept k := by
  have hzero : IsKeptCoordinate (.ofBits 0) := fun k hk => by
    rw [← isWhole_zero.unique hk]
    decide
  simp only [Graph.IsKept, graph, Node.coordinates, List.forall_mem_cons, List.not_mem_nil,
    false_imp_iff, implies_true, and_true, hzero]
  exact ⟨fun hkept => hkept k h, fun hkept j hj => h.unique hj ▸ hkept⟩

/-- The folder comes back from its text. -/
theorem parse?_unrounded : (∀ n ∈ (graph unrounded).nodes, n.IsExact) ∧
    (graph unrounded).toJson.compactText ∈ (graph unrounded).texts ∧
    Graph.parse? (graph unrounded).toJson.compactText = some (graph unrounded) := by
  have hexact := isExact_graph isWhole_unrounded (by decide)
  have htext : (graph unrounded).toJson.compactText ∈ (graph unrounded).texts :=
    List.mem_cons_self
  refine ⟨hexact, htext, (Graph.parse?_eq_some_iff_isKept hexact htext).2.1.2 ?_⟩
  exact (isKept_graph_iff isWhole_unrounded).2 (by decide)

/-- One place further, another folder comes back. -/
theorem not_parse?_rounded : (∀ n ∈ (graph rounded).nodes, n.IsExact) ∧
    Graph.parse? (graph rounded).toJson.compactText ≠ some (graph rounded) := by
  have hexact := isExact_graph isWhole_rounded (by decide)
  obtain ⟨read, hread, _, _, hsame⟩ :=
    Graph.exists_parse?_of_mem_texts (g := graph rounded) hexact List.mem_cons_self
  refine ⟨hexact, fun hparse => ?_⟩
  have hkept := hsame.1 (Option.some.inj (hread.symm.trans hparse))
  exact absurd ((isKept_graph_iff isWhole_rounded).1 hkept) (by decide)

end LargeFolder

end InfraGraph
