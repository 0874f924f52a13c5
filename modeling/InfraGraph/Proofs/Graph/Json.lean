import InfraGraph.Graph.Json
import InfraGraph.Proofs.Failure
import InfraGraph.Proofs.Json.Float
import InfraGraph.Proofs.Json.Pretty
import InfraGraph.Proofs.SortedMap

/-!
# Graphs that are read back

What a graph is written as can be read, whatever texts are in it, as long as its depths fit and
there are numbers for its coordinates that can be read.  It comes back as it was but for two things:
coordinates are those that their numbers are read as, and types are those that their names stand
for.
-/

namespace InfraGraph

namespace Json

theorem string?_ofString (s : String) : string? (.ofString s) = some s := rfl

theorem withDefault_some {α : Type} (fallback : α) (read : Json → Option α) (j : Json) :
    withDefault fallback read (some j) = read j := rfl

theorem withDefault_nullable? (text : Option String) :
    withDefault none (nullable? string?) (text.map .ofString) = some text := by
  cases text <;> rfl

theorem list?_map {α β : Type} {write : α → Json} {read : Json → Option β} {l : List α}
    {bs : List β} :
    list? read (.array (l.map write)) = some bs ↔
      List.Forall₂ (fun a b => read (write a) = some b) l bs := by
  rw [list?, mapM_eq_some_iff, List.forall₂_map_left_iff]

/-- Elements that are read back one by one are read back as a list. -/
theorem list?_map_eq {α : Type} {write : α → Json} {read : Json → Option α}
    (h : ∀ a, read (write a) = some a) (l : List α) :
    list? read (.array (l.map write)) = some l :=
  list?_map.2 (List.forall₂_same.2 fun a _ => h a)

theorem stringMap?_toJson (m : SortedMap String) : stringMap? m.toJson = some m := by
  have hmembers : (m.toList.map fun entry => (some entry.1, Json.ofString entry.2)).mapM
      (fun (member : Option String × Json) =>
        member.1.bind fun key => member.2.string?.map fun value => (key, value)) =
      some m.toList := by
    rw [mapM_eq_some_iff, List.forall₂_map_left_iff, List.forall₂_same]
    exact fun _ _ => rfl
  rw [SortedMap.toJson, ofMembers, List.map_map, stringMap?]
  exact (congrArg (Option.map SortedMap.ofList) hmembers).trans
    (congrArg some (SortedMap.ofList_toList m))

end Json

theorem FileRef.ofJson?_toJson (f : FileRef) : ofJson? f.toJson = some f := by
  have hrecord : f.toJson.record? members =
      some [some (.ofString f.fileName), some (.ofString f.fileId)] := by
    simp [toJson, members, Json.record?, Json.ofMembers, Json.memberOnce?]
  rw [ofJson?, hrecord]
  rfl

theorem Edge.ofJson?_toJson (e : Edge) : ofJson? e.toJson = some e := by
  obtain ⟨id, source, target, dependencyName, enabled, sourceHandle, targetHandle⟩ := e
  have hrecord : (toJson ⟨id, source, target, dependencyName, enabled, sourceHandle,
      targetHandle⟩).record? members =
      some [some (.ofString id), some (.ofString source), some (.ofString target),
        dependencyName.map .ofString, some (.bool enabled), sourceHandle.map .ofString,
        targetHandle.map .ofString] := by
    cases dependencyName <;> cases sourceHandle <;> cases targetHandle <;>
      simp [toJson, members, optionalMember, Json.record?, Json.ofMembers, Json.memberOnce?]
  rw [ofJson?, hrecord]
  cases dependencyName <;> cases sourceHandle <;> cases targetHandle <;> rfl

/-- Reading the number that stands for the first coordinate gives the second one. -/
def ReadsAs (x y : Float) : Prop :=
  Json.float? (Json.ofFloat x) = some y

/-- Reading a written position gives the second one. -/
structure Position.IsReadAs (p read : Position Float) : Prop where
  x : ReadsAs p.x read.x
  y : ReadsAs p.y read.y

/-- Reading a written extent gives the second one. -/
structure Size.IsReadAs (s read : Size Float) : Prop where
  width : ReadsAs s.width read.width
  height : ReadsAs s.height read.height

/-- Reading a written node gives the second one, which differs in its type and its coordinates at
most. -/
structure Node.IsReadAs (n read : Node) : Prop where
  id : read.id = n.id
  type : read.type = NodeType.ofName n.type.name
  parentId : read.parentId = n.parentId
  depth : read.depth = n.depth
  label : read.label = n.label
  locals : read.locals = n.locals
  inputs : read.inputs = n.inputs
  files : read.files = n.files
  position : n.position.IsReadAs read.position
  size : n.size.IsReadAs read.size

theorem Position.ofJson?_toJson {p read : Position Float} :
    ofJson? (p.toJson Json.ofFloat) = some read ↔ p.IsReadAs read := by
  have hrecord : (p.toJson Json.ofFloat).record? ["x", "y"] =
      some [some (Json.ofFloat p.x), some (Json.ofFloat p.y)] := by
    simp [toJson, Json.record?, Json.ofMembers, Json.memberOnce?]
  rw [ofJson?, hrecord]
  simp only [Option.bind_eq_bind, Option.bind_some, Json.required, Option.bind_eq_some_iff,
    Option.pure_def, Option.some.injEq]
  constructor
  · rintro ⟨x, hx, y, hy, rfl⟩
    exact ⟨hx, hy⟩
  · rintro ⟨hx, hy⟩
    exact ⟨_, hx, _, hy, rfl⟩

theorem Size.ofJson?_toJson {s read : Size Float} :
    ofJson? (s.toJson Json.ofFloat) = some read ↔ s.IsReadAs read := by
  have hrecord : (s.toJson Json.ofFloat).record? ["width", "height"] =
      some [some (Json.ofFloat s.width), some (Json.ofFloat s.height)] := by
    simp [toJson, Json.record?, Json.ofMembers, Json.memberOnce?]
  rw [ofJson?, hrecord]
  simp only [Option.bind_eq_bind, Option.bind_some, Json.required, Option.bind_eq_some_iff,
    Option.pure_def, Option.some.injEq]
  constructor
  · rintro ⟨x, hx, y, hy, rfl⟩
    exact ⟨hx, hy⟩
  · rintro ⟨hx, hy⟩
    exact ⟨_, hx, _, hy, rfl⟩

theorem Node.record?_toJsonWith (number : Float → Json) (n : Node) :
    (n.toJsonWith number).record? members =
      some [some (.ofString n.id), some (.ofString n.type.name), n.parentId.map .ofString,
        some (.ofNat n.depth), some (.ofString n.label), some n.locals.toJson,
        some n.inputs.toJson, some (.array (n.files.map FileRef.toJson)),
        some (n.position.toJson number), some (n.size.toJson number)] := by
  cases hparent : n.parentId <;>
    simp [toJsonWith, hparent, members, optionalMember, Json.record?, Json.ofMembers,
      Json.memberOnce?]

/-- A node is read unless its depth or one of its coordinates can't be. -/
theorem Node.ofJson?_toJsonWith {n read : Node} :
    ofJson? (n.toJsonWith Json.ofFloat) = some read ↔ n.depth ≤ maxDepth ∧ n.IsReadAs read := by
  have hfiles : Json.list? FileRef.ofJson? (.array (n.files.map FileRef.toJson)) = some n.files :=
    Json.list?_map_eq FileRef.ofJson?_toJson n.files
  rw [ofJson?, record?_toJsonWith]
  simp only [Option.bind_eq_bind, Option.bind_some, Json.required, Json.withDefault_some,
    Json.withDefault_nullable?, Json.string?_ofString, Json.stringMap?_toJson, hfiles,
    Json.nat?_ofNat_eq, Option.bind_eq_some_iff, Position.ofJson?_toJson, Size.ofJson?_toJson,
    Option.ite_none_right_eq_some, Option.some.injEq, Option.pure_def]
  constructor
  · rintro ⟨_, ⟨hdepth, rfl⟩, position, hposition, size, hsize, rfl⟩
    exact ⟨hdepth, rfl, rfl, rfl, rfl, rfl, rfl, rfl, rfl, hposition, hsize⟩
  · rintro ⟨hdepth, h⟩
    obtain ⟨id, type, parentId, depth, label, locals, inputs, files, position, size⟩ := read
    obtain ⟨rfl, rfl, rfl, rfl, rfl, rfl, rfl, rfl, hposition, hsize⟩ := h
    exact ⟨_, ⟨hdepth, rfl⟩, _, hposition, _, hsize, rfl⟩

/-- A graph is read with the edges that it was written with, and its nodes one by one. -/
theorem Graph.ofJson?_toJson {g read : Graph} :
    ofJson? g.toJson = some read ↔
      List.Forall₂ (fun n r : Node => n.depth ≤ Node.maxDepth ∧ n.IsReadAs r) g.nodes read.nodes ∧
        read.edges = g.edges := by
  have hrecord : g.toJson.record? members =
      some [some (.array (g.nodes.map (Node.toJsonWith Json.ofFloat))),
        some (.array (g.edges.map Edge.toJson))] := by
    simp [toJson, toJsonWith, members, Json.record?, Json.ofMembers, Json.memberOnce?]
  have hedges : Json.list? Edge.ofJson? (.array (g.edges.map Edge.toJson)) = some g.edges :=
    Json.list?_map_eq Edge.ofJson?_toJson g.edges
  rw [ofJson?, hrecord]
  simp only [Option.bind_eq_bind, Option.bind_some, Json.withDefault_some, hedges,
    Option.bind_eq_some_iff, Json.list?_map, Node.ofJson?_toJsonWith, Option.pure_def,
    Option.some.injEq]
  constructor
  · rintro ⟨nodes, hnodes, rfl⟩
    exact ⟨hnodes, rfl⟩
  · obtain ⟨nodes, edges⟩ := read
    rintro ⟨hnodes, rfl⟩
    exact ⟨_, hnodes, rfl⟩

/-! ### The text of a graph -/

theorem Json.readable_ofMembers {members : List (String × Json)}
    (h : ∀ member ∈ members, member.2.Readable) : (Json.ofMembers members).Readable := by
  refine .object (fun member hmember => ?_) fun member hmember => ?_
  · obtain ⟨_, _, rfl⟩ := List.mem_map.1 hmember
    rfl
  · obtain ⟨own, hown, rfl⟩ := List.mem_map.1 hmember
    exact h own hown

theorem Json.readable_map {α : Type} {write : α → Json} {l : List α}
    (h : ∀ a, (write a).Readable) : (Json.array (l.map write)).Readable := by
  refine .array fun element helement => ?_
  obtain ⟨a, _, rfl⟩ := List.mem_map.1 helement
  exact h a

theorem readable_optionalMember {name : String} {text : Option String} :
    ∀ member ∈ optionalMember name text, member.2.Readable := by
  cases text with
  | none => simp [optionalMember]
  | some text =>
      intro member hmember
      obtain rfl := List.mem_singleton.1 hmember
      exact .string text

theorem SortedMap.readable_toJson (m : SortedMap String) : m.toJson.Readable := by
  refine Json.readable_ofMembers fun member hmember => ?_
  obtain ⟨entry, _, rfl⟩ := List.mem_map.1 hmember
  exact .string entry.2

theorem FileRef.readable_toJson (f : FileRef) : f.toJson.Readable := by
  refine Json.readable_ofMembers ?_
  simp only [List.forall_mem_cons]
  exact ⟨.string _, .string _, by simp⟩

theorem Node.readable_toJsonWith (n : Node) : (n.toJsonWith Json.ofFloat).Readable := by
  have hposition : (n.position.toJson Json.ofFloat).Readable := by
    refine Json.readable_ofMembers ?_
    simp only [List.forall_mem_cons]
    exact ⟨Json.readable_ofFloat _, Json.readable_ofFloat _, by simp⟩
  have hsize : (n.size.toJson Json.ofFloat).Readable := by
    refine Json.readable_ofMembers ?_
    simp only [List.forall_mem_cons]
    exact ⟨Json.readable_ofFloat _, Json.readable_ofFloat _, by simp⟩
  refine Json.readable_ofMembers ?_
  simp only [List.forall_mem_append, List.forall_mem_cons]
  exact ⟨⟨⟨.string _, .string _, by simp⟩, readable_optionalMember⟩,
    .number (Json.isNumeral_toDigits _), .string _, n.locals.readable_toJson,
    n.inputs.readable_toJson, Json.readable_map FileRef.readable_toJson, hposition, hsize, by simp⟩

theorem Edge.readable_toJson (e : Edge) : e.toJson.Readable := by
  refine Json.readable_ofMembers ?_
  simp only [List.forall_mem_append, List.forall_mem_cons]
  exact ⟨⟨⟨⟨⟨.string _, .string _, .string _, by simp⟩, readable_optionalMember⟩, .bool _, by simp⟩,
    readable_optionalMember⟩, readable_optionalMember⟩

theorem Graph.readable_toJson (g : Graph) : g.toJson.Readable := by
  refine Json.readable_ofMembers ?_
  simp only [List.forall_mem_cons]
  exact ⟨Json.readable_map Node.readable_toJsonWith, Json.readable_map Edge.readable_toJson,
    by simp⟩

/-- What a graph is written as over several lines can be read, and then has the nodes and the edges
of the graph. -/
theorem Graph.parse?_prettyText {g read : Graph} :
    parse? g.toJson.prettyText = some read ↔
      List.Forall₂ (fun n r : Node => n.depth ≤ Node.maxDepth ∧ n.IsReadAs r) g.nodes read.nodes ∧
        read.edges = g.edges := by
  rw [parse?, Json.parse?_prettyText g.readable_toJson, Option.bind_some, ofJson?_toJson]

end InfraGraph
