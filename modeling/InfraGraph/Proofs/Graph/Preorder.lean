import InfraGraph.Proofs.Graph.Worklist

/-!
# The order of the walk

The walk meets a node before everything below it, and siblings, with all that lies below them, in
the order of the list.  That order can be said without the walk: the places in the list of the nodes
that lead down to a node come in the order of words, a word before those that it starts.  It is the
order in which labels are looked at, so it decides which of several unusable labels is reported.
-/

namespace InfraGraph

/-- The places in the list of the nodes of a lineage, from the top down. -/
def placesDown (nodes lineage : List Node) : List Nat :=
  (lineage.map fun node => (nodes.map (·.id)).idxOf node.id).reverse

/-- A depth-first walk that visits siblings in the order of the list meets the first node before the
second one. -/
def ComesBefore (nodes : List Node) (a b : Node) : Prop :=
  ∃ above above', IsLineage nodes (a :: above) ∧ IsLineage nodes (b :: above') ∧
    placesDown nodes (a :: above) < placesDown nodes (b :: above')

/-- The node needs a directory, as its parents lead to the top, but its label is no name for one. -/
def IsNameless (nodes : List Node) (node : Node) : Prop :=
  node.type ≠ .root ∧ (∃ parts, LiesAt nodes node parts) ∧
    (sanitizeLabel node.label = "" ∨ sanitizeLabel node.label = "." ∨
      sanitizeLabel node.label = "..")

/-- Of the nodes without a name, the walk meets this one first. -/
def IsFirstNameless (nodes : List Node) (node : Node) : Prop :=
  IsNameless nodes node ∧ ∀ other, IsNameless nodes other → other ≠ node →
    ComesBefore nodes node other ∧ ¬ ComesBefore nodes other node

section Order

variable {nodes : List Node}

/-! ### The order of lineages -/

theorem placesDown_cons (node : Node) (above : List Node) :
    placesDown nodes (node :: above) =
      placesDown nodes above ++ [(nodes.map (·.id)).idxOf node.id] := by
  simp [placesDown]

theorem placesDown_append (below above : List Node) :
    placesDown nodes (below ++ above) = placesDown nodes above ++ placesDown nodes below := by
  simp [placesDown]

/-- What lies below a node comes after it. -/
theorem placesDown_lt_of_below (child : Node) {above lineage : List Node}
    (h : child :: above <:+ lineage) : placesDown nodes above < placesDown nodes lineage := by
  obtain ⟨below, rfl⟩ := h
  rw [placesDown_append, placesDown_cons, List.append_assoc]
  have hlt : placesDown nodes above ++ [] < placesDown nodes above ++
      ((nodes.map (·.id)).idxOf child.id :: placesDown nodes below) :=
    List.append_left_lt (List.nil_lt_cons _ _)
  rwa [List.append_nil] at hlt

/-- What lies below a sibling that is listed first comes first. -/
theorem placesDown_lt_of_sibling {first second : Node} {above a b : List Node}
    (hlt : (nodes.map (·.id)).idxOf first.id < (nodes.map (·.id)).idxOf second.id)
    (ha : first :: above <:+ a) (hb : second :: above <:+ b) :
    placesDown nodes a < placesDown nodes b := by
  obtain ⟨below, rfl⟩ := ha
  obtain ⟨below', rfl⟩ := hb
  simp only [placesDown_append, placesDown_cons, List.append_assoc]
  exact List.append_left_lt (List.cons_lt_cons_iff.2 (.inl hlt))

/-- Where ids are distinct, places in the list are those of the order of the list. -/
theorem DistinctIds.pairwise_idxOf (hids : DistinctIds nodes) :
    nodes.Pairwise fun a b => (nodes.map (·.id)).idxOf a.id < (nodes.map (·.id)).idxOf b.id := by
  rw [List.pairwise_iff_getElem]
  intro i j hi hj hij
  have hplace : ∀ i (hi : i < nodes.length), (nodes.map (·.id)).idxOf nodes[i].id = i := by
    intro i hi
    have hget := hids.idxOf_getElem i (by simpa using hi)
    rwa [List.getElem_map] at hget
  rwa [hplace i hi, hplace j hj]

theorem DistinctIds.pairwise_childrenOf (hids : DistinctIds nodes) (parent : Option String) :
    (childrenOf nodes parent).Pairwise fun a b =>
      (nodes.map (·.id)).idxOf a.id < (nodes.map (·.id)).idxOf b.id :=
  hids.pairwise_idxOf.filter _

theorem pairwise_flatMap_lineagesBelow {depth : Nat} {above children : List Node}
    (hchildren : children.Pairwise fun a b =>
      (nodes.map (·.id)).idxOf a.id < (nodes.map (·.id)).idxOf b.id)
    (hbelow : ∀ child ∈ children, (lineagesBelow nodes depth above child).Pairwise fun a b =>
      placesDown nodes a < placesDown nodes b) :
    (children.flatMap (lineagesBelow nodes depth above)).Pairwise fun a b =>
      placesDown nodes a < placesDown nodes b := by
  rw [List.pairwise_flatMap]
  refine ⟨hbelow, hchildren.imp fun hlt a ha b hb => ?_⟩
  exact placesDown_lt_of_sibling hlt (suffix_of_mem_lineagesBelow ha)
    (suffix_of_mem_lineagesBelow hb)

theorem DistinctIds.pairwise_lineagesBelow (hids : DistinctIds nodes) (depth : Nat)
    (above : List Node) (node : Node) :
    (lineagesBelow nodes depth above node).Pairwise fun a b =>
      placesDown nodes a < placesDown nodes b := by
  induction depth generalizing above node with
  | zero => exact List.pairwise_singleton _ _
  | succ depth ih =>
      rw [lineagesBelow, List.pairwise_cons]
      refine ⟨fun lineage hlineage => ?_, pairwise_flatMap_lineagesBelow
        (hids.pairwise_childrenOf _) fun child _ => ih (node :: above) child⟩
      obtain ⟨child, _, hmem⟩ := List.mem_flatMap.1 hlineage
      exact placesDown_lt_of_below child (suffix_of_mem_lineagesBelow hmem)

/-- The walk meets lineages in the order of the places of their nodes. -/
theorem DistinctIds.pairwise_lineages (hids : DistinctIds nodes) :
    (lineages nodes).Pairwise fun a b => placesDown nodes a < placesDown nodes b :=
  pairwise_flatMap_lineagesBelow (hids.pairwise_childrenOf _) fun child _ =>
    hids.pairwise_lineagesBelow _ _ child

theorem ComesBefore.asymm (hids : DistinctIds nodes) {a b : Node} (h : ComesBefore nodes a b) :
    ¬ ComesBefore nodes b a := by
  rintro ⟨above, above', hb, ha, hback⟩
  obtain ⟨rest, rest', ha', hb', hlt⟩ := h
  rw [ha'.tail_unique hids ha, hb'.tail_unique hids hb] at hlt
  exact List.lt_asymm hlt hback

/-! ### The first node without a name -/

theorem isNameless_iff {node : Node} :
    IsNameless nodes node ↔ (∃ parts, LiesAt nodes node parts) ∧ ¬ node.HasUsableLabel := by
  rw [IsNameless, Node.HasUsableLabel, isUsableName_iff, not_or]
  tauto

/-- A failure is that of the node without a name that the walk meets first. -/
theorem exists_isFirstNameless_of_resolvePaths (hids : DistinctIds nodes) {e : GraphError}
    (h : resolvePaths nodes = .error e) :
    ∃ node, IsFirstNameless nodes node ∧ e = .missingLabel node.id := by
  obtain ⟨front, lineage, back, hsplit, hfront, hplace⟩ := exists_meets_of_resolvePaths h
  have hmem : lineage ∈ lineages nodes := by simp [hsplit]
  obtain ⟨hlineage, hne, _⟩ := mem_lineages.1 hmem
  obtain ⟨node, above, rfl⟩ := List.exists_cons_of_ne_nil hne
  have hlabel := hids.missingLabel_of_placeLineage hlineage hplace
  refine ⟨node, ⟨isNameless_iff.2 ⟨⟨_, above, hlineage, rfl⟩, hlabel.1⟩,
    fun other hother hne => ?_⟩, hlabel.2⟩
  obtain ⟨⟨_, above', hlineage', _⟩, hlabel'⟩ := isNameless_iff.1 hother
  have hmem := hids.cons_mem_lineages hlineage'
  -- All lineages in front of that of the node can be placed, so the other one comes behind it.
  have hbefore : ComesBefore nodes node other := by
    refine ⟨above, above', hlineage, hlineage', ?_⟩
    have hpairwise := hids.pairwise_lineages
    rw [hsplit] at hmem hpairwise
    have hbehind := (List.pairwise_append.1 hpairwise).2.1
    rcases List.mem_append.1 hmem with hearlier | hbehind'
    · exact absurd (hfront _ hearlier).2 hlabel'
    · rcases List.mem_cons.1 hbehind' with heq | hlater
      · exact absurd (List.cons.inj heq).1 hne
      · exact List.rel_of_pairwise_cons hbehind hlater
  exact ⟨hbefore, hbefore.asymm hids⟩

theorem exists_resolvePaths_iff_not_isNameless (hids : DistinctIds nodes) :
    (∃ paths, resolvePaths nodes = .ok paths) ↔ ∀ node, ¬ IsNameless nodes node := by
  simp only [exists_resolvePaths_eq_ok_iff hids, isNameless_iff, not_and, not_not]
  exact ⟨fun h node ⟨parts, hlies⟩ => h node parts hlies,
    fun h node parts hlies => h node ⟨parts, hlies⟩⟩

/-- Where ids are distinct, the loop over the stack ends after taking off every node at most once.
It reports the first node whose label makes no name, if there is one; otherwise it maps the nodes
whose parents lead to the top, and no others, to the names made from the labels on the way. -/
theorem walkFromTop_followsLabels (hids : DistinctIds nodes) :
    ∃ outcome, walkFromTop nodes nodes.length = some outcome ∧ resolvePaths nodes = outcome ∧
      ((∃ node, IsNameless nodes node) →
        ∃ node, IsFirstNameless nodes node ∧ outcome = .error (.missingLabel node.id)) ∧
      ((¬ ∃ node, IsNameless nodes node) → ∃ paths, outcome = .ok paths ∧
        ∀ id path, paths.find? id = some path ↔ ∃ node parts, node.type ≠ .root ∧ node.id = id ∧
          LiesAt nodes node parts ∧ path = Path.unsplit parts) := by
  obtain ⟨more, hmore⟩ := Nat.exists_eq_add_of_le hids.length_lineages_le
  have hwalk : ∀ outcome, walkFromTop nodes (lineages nodes).length = some outcome →
      walkFromTop nodes nodes.length = some outcome := by
    intro outcome houtcome
    rw [hmore]
    exact walk_add houtcome more
  cases hresolve : resolvePaths nodes with
  | ok paths =>
      refine ⟨_, hwalk _ (walkFromTop_of_ok hresolve), rfl, fun ⟨node, hnode⟩ => ?_, fun _ => ?_⟩
      · exact absurd hnode ((exists_resolvePaths_iff_not_isNameless hids).1 ⟨paths, hresolve⟩ node)
      · exact ⟨paths, rfl, fun id path => find?_resolvePaths hids hresolve⟩
  | error e =>
      obtain ⟨node, hfirst, rfl⟩ := exists_isFirstNameless_of_resolvePaths hids hresolve
      refine ⟨_, hwalk _ (walkFromTop_of_missingLabel hresolve), rfl,
        fun _ => ⟨node, hfirst, rfl⟩, fun hnone => ?_⟩
      exact absurd ⟨node, hfirst.1⟩ hnone

end Order

/-! ### Several nodes without a name -/

namespace NamelessNodes

/-- A node that is nothing but its place. -/
def node (type : NodeType) (id : String) (parent : Option String) (label : String) : Node where
  id := id
  type := type
  parentId := parent
  depth := 0
  label := label
  locals := .empty
  inputs := .empty
  files := []
  position := .origin
  size := .none

def inner : Node := node .folder "inner" (some "first") "."

/-- Five nodes whose labels make no name.  One has no directory, one lies below itself, the parent
of one is missing, and of the other two the one that is listed first comes second in the walk. -/
def nodes : List Node := [
  node .root "top" none "..",
  node .folder "first" (some "top") "web",
  node .folder "second" none "\"\"",
  node .folder "adrift" (some "gone") "",
  node .folder "loop" (some "loop") "..",
  inner
]

theorem distinctIds : DistinctIds nodes := by
  decide

theorem resolvePaths_nodes : resolvePaths nodes = .error (.missingLabel "inner") := by
  rfl

/-- The walk goes below the first node before it meets the second one. -/
theorem isFirstNameless_inner : DistinctIds nodes ∧ IsFirstNameless nodes inner ∧
    walkFromTop nodes nodes.length = some (.error (.missingLabel "inner")) := by
  obtain ⟨outcome, hwalk, hresolve, hnameless, hnamed⟩ := walkFromTop_followsLabels distinctIds
  obtain rfl := hresolve.symm.trans resolvePaths_nodes
  have hexists : ∃ node, IsNameless nodes node := by
    by_contra hnone
    obtain ⟨paths, hok, _⟩ := hnamed hnone
    cases hok
  obtain ⟨node, hfirst, herror⟩ := hnameless hexists
  have hid : inner.id = node.id := GraphError.missingLabel.inj (Except.error.inj herror)
  obtain ⟨parts, hlies⟩ := hfirst.1.2.1
  have hinner : inner ∈ nodes := by simp [nodes]
  obtain rfl := distinctIds.eq_of_id_eq hinner hlies.mem hid
  exact ⟨distinctIds, hfirst, hwalk⟩

end NamelessNodes

end InfraGraph
