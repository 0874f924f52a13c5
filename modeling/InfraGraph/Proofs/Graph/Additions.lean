import Mathlib.Logic.Relation
import InfraGraph.Proofs.Graph.Lineage

/-!
# Graphs that grow by what is offered

The rules of a type say which builtin types may lie directly below it and how many of each, and a
type is offered below a parent as long as that very parent has room for it.  A graph that keeps to
the limits and then grows by builtin nodes where their types are offered, and by modules anywhere,
keeps to the limits ever after.

What carries this along is that an id tells builtin nodes apart.  Then the parent below which a type
is offered is the only one whose children a new node adds to, and the new node, whose id is used
nowhere, has no children yet.  Modules have no rules and no rule speaks of them, so they may even
have the id of another node.
-/

namespace InfraGraph

/-- The number of children of a type. -/
def childCount (nodes : List Node) (parentId : Option String) (type : NodeType) : Nat :=
  (childrenOf nodes parentId).countP (·.type = type)

/-- Where nodes can be added: at the top, for which the rules of `root` are meant, and below every
node. -/
inductive IsPlace (nodes : List Node) : NodeType → Option String → Prop
  | top : IsPlace nodes .root none
  | below {parent : Node} (h : parent ∈ nodes) : IsPlace nodes parent.type (some parent.id)

/-- Nowhere are there more children of a type than the rules allow. -/
def KeepsLimits (nodes : List Node) : Prop :=
  ∀ parentType parentId, IsPlace nodes parentType parentId → ∀ rule ∈ parentType.childRules,
    ∀ limit ∈ rule.limit, childCount nodes parentId rule.type ≤ limit

/-- No node has the id, and none has it for its parent. -/
def IsUnused (nodes : List Node) (id : String) : Prop :=
  ∀ node ∈ nodes, node.id ≠ id ∧ node.parentId ≠ some id

instance (nodes : List Node) (id : String) : Decidable (IsUnused nodes id) :=
  inferInstanceAs (Decidable (∀ node ∈ nodes, node.id ≠ id ∧ node.parentId ≠ some id))

/-- A node is added somewhere in the list: a new one with a type that is offered where it is added,
or a module below whatever it says. -/
inductive Addition : List Node → List Node → Prop
  | offered {front back : List Node} {node : Node} {parentType : NodeType}
    (hplace : IsPlace (front ++ back) parentType node.parentId)
    (hunused : IsUnused (front ++ back) node.id)
    (htype : node.type ∈ addableTypes parentType node.parentId (front ++ back)) :
    Addition (front ++ back) (front ++ node :: back)
  | remote {front back : List Node} {node : Node} {module : String}
    (htype : node.type = .remote module) :
    Addition (front ++ back) (front ++ node :: back)

/-- The nodes that are no modules. -/
def builtinNodes (nodes : List Node) : List Node :=
  nodes.filter fun node => node.type.module? = none

/-! ### Rules -/

namespace NodeType

variable {type : NodeType} {rule other : ChildRule}

theorem module?_of_mem_childRules (h : rule ∈ type.childRules) : type.module? = none := by
  cases type with
  | remote _ => cases h
  | _ => rfl

theorem module?_type_of_mem_childRules (h : rule ∈ type.childRules) :
    rule.type.module? = none := by
  cases type with
  | file | remote _ => cases h
  | tier | folder =>
      rcases List.mem_pair.1 h with rfl | rfl
      · rfl
      · rfl
  | _ =>
      obtain rfl := List.mem_singleton.1 h
      rfl

/-- The rules of a type speak of different types. -/
theorem eq_of_mem_childRules (h : rule ∈ type.childRules) (hother : other ∈ type.childRules)
    (htype : rule.type = other.type) : rule = other := by
  cases type with
  | file | remote _ => cases h
  | tier | folder =>
      rcases List.mem_pair.1 h with rfl | rfl <;> rcases List.mem_pair.1 hother with rfl | rfl <;>
        first
          | rfl
          | cases htype
  | _ => exact (List.mem_singleton.1 h).trans (List.mem_singleton.1 hother).symm

end NodeType

/-! ### Limits -/

section Limits

variable {nodes : List Node}

/-- The limits are those of the top and of every node. -/
theorem keepsLimits_iff :
    KeepsLimits nodes ↔
      childCount nodes none .account ≤ 1 ∧
        ∀ parent ∈ nodes, ∀ rule ∈ parent.type.childRules, ∀ limit ∈ rule.limit,
          childCount nodes (some parent.id) rule.type ≤ limit := by
  constructor
  · intro h
    exact ⟨h _ _ .top ⟨.account, some 1⟩ (List.mem_singleton_self _) 1 rfl,
      fun parent hparent => h _ _ (.below hparent)⟩
  · rintro ⟨htop, hbelow⟩ parentType parentId hplace rule hrule limit hlimit
    cases hplace with
    | top =>
        obtain rfl := List.mem_singleton.1 hrule
        obtain rfl := Option.some.inj hlimit
        exact htop
    | below hparent => exact hbelow _ hparent rule hrule limit hlimit

instance : Decidable (KeepsLimits nodes) :=
  decidable_of_iff _ keepsLimits_iff.symm

end Limits

/-! ### What is offered -/

section Offers

variable {nodes : List Node} {parentType : NodeType} {parentId : Option String} {rule : ChildRule}

theorem childCount_eq_countP {type : NodeType} :
    childCount nodes parentId type =
      nodes.countP fun node => node.parentId = parentId ∧ node.type = type := by
  rw [childCount, childrenOf, List.countP_filter]
  exact List.countP_congr fun node _ => by simp [and_comm]

theorem childCount_eq_zero (h : ∀ node ∈ nodes, node.parentId ≠ parentId) (type : NodeType) :
    childCount nodes parentId type = 0 := by
  rw [childCount_eq_countP, List.countP_eq_zero]
  simp +contextual [h]

theorem mem_addableTypes_iff {type : NodeType} :
    type ∈ addableTypes parentType parentId nodes ↔
      ∃ rule ∈ parentType.childRules, rule.type = type ∧
        ∀ limit ∈ rule.limit, childCount nodes parentId type < limit := by
  simp only [addableTypes, List.mem_map, List.mem_filter, and_assoc]
  refine exists_congr fun rule => and_congr_right fun _ => ?_
  rw [and_comm]
  refine and_congr_right fun htype => ?_
  rw [← htype, childCount_eq_countP]
  cases rule.limit with
  | none => simp
  | some limit => simp

/-- A type is withheld exactly if the parent has as many children of it as its rule allows. -/
theorem not_mem_addableTypes_iff (hrule : rule ∈ parentType.childRules) :
    rule.type ∉ addableTypes parentType parentId nodes ↔
      ∃ limit ∈ rule.limit, limit ≤ childCount nodes parentId rule.type := by
  have hoffered : rule.type ∈ addableTypes parentType parentId nodes ↔
      ∀ limit ∈ rule.limit, childCount nodes parentId rule.type < limit := by
    rw [mem_addableTypes_iff]
    constructor
    · rintro ⟨other, hother, htype, hroom⟩
      rwa [NodeType.eq_of_mem_childRules hother hrule htype] at hroom
    · exact fun hroom => ⟨rule, hrule, rfl, hroom⟩
  rw [hoffered]
  simp only [not_forall, exists_prop, Nat.not_lt]

/-- Where the limits are kept, a type is withheld exactly if its limit is attained. -/
theorem KeepsLimits.not_mem_addableTypes_iff (h : KeepsLimits nodes)
    (hplace : IsPlace nodes parentType parentId) (hrule : rule ∈ parentType.childRules) :
    rule.type ∉ addableTypes parentType parentId nodes ↔
      rule.limit = some (childCount nodes parentId rule.type) := by
  rw [InfraGraph.not_mem_addableTypes_iff hrule]
  constructor
  · rintro ⟨limit, hlimit, hreached⟩
    rw [Option.mem_def.1 hlimit,
      Nat.le_antisymm hreached (h _ _ hplace rule hrule limit hlimit)]
  · exact fun hlimit => ⟨_, hlimit, Nat.le_refl _⟩

/-- Where builtin nodes have distinct ids, an id stands for one place with rules only. -/
theorem IsPlace.type_unique (hids : DistinctIds (builtinNodes nodes)) {other : NodeType}
    (h : IsPlace nodes parentType parentId) (hother : IsPlace nodes other parentId)
    (hbuiltin : parentType.module? = none) (hbuiltin' : other.module? = none) :
    parentType = other := by
  generalize hid : parentId = id at hother
  cases h with
  | top =>
      cases hother with
      | top => rfl
      | below _ => cases hid
  | @below parent hparent =>
      cases hother with
      | top => cases hid
      | @below parent' hparent' =>
          have hmem : parent ∈ builtinNodes nodes := by simp [builtinNodes, hparent, hbuiltin]
          have hmem' : parent' ∈ builtinNodes nodes := by simp [builtinNodes, hparent', hbuiltin']
          rw [hids.eq_of_id_eq hmem hmem' (Option.some.inj hid)]

end Offers

/-! ### One addition -/

section Insertion

variable {front back : List Node} {node : Node} {parentType : NodeType} {parentId : Option String}

theorem childCount_insert (type : NodeType) :
    childCount (front ++ node :: back) parentId type =
      childCount (front ++ back) parentId type +
        if node.parentId = parentId ∧ node.type = type then 1 else 0 := by
  simp only [childCount_eq_countP, List.countP_append, List.countP_cons, decide_eq_true_eq]
  omega

theorem childCount_insert_of_parentId_ne (h : node.parentId ≠ parentId) (type : NodeType) :
    childCount (front ++ node :: back) parentId type =
      childCount (front ++ back) parentId type := by
  rw [childCount_insert, if_neg fun heq => h heq.1, Nat.add_zero]

theorem childCount_insert_of_type_ne {type : NodeType} (h : node.type ≠ type) :
    childCount (front ++ node :: back) parentId type =
      childCount (front ++ back) parentId type := by
  rw [childCount_insert, if_neg fun heq => h heq.2, Nat.add_zero]

/-- An addition neither takes room from another parent nor makes room there. -/
theorem addableTypes_insert_of_parentId_ne (h : node.parentId ≠ parentId) :
    addableTypes parentType parentId (front ++ node :: back) =
      addableTypes parentType parentId (front ++ back) := by
  simp only [addableTypes, ← childCount_eq_countP, childCount_insert_of_parentId_ne h]

theorem isPlace_insert :
    IsPlace (front ++ node :: back) parentType parentId ↔
      IsPlace (front ++ back) parentType parentId ∨
        parentType = node.type ∧ parentId = some node.id := by
  constructor
  · rintro (_ | hparent)
    · exact .inl .top
    · rcases List.mem_append.1 hparent with hparent | hparent
      · exact .inl (.below (List.mem_append_left _ hparent))
      · rcases List.mem_cons.1 hparent with rfl | hparent
        · exact .inr ⟨rfl, rfl⟩
        · exact .inl (.below (List.mem_append_right _ hparent))
  · rintro ((_ | hparent) | ⟨rfl, rfl⟩)
    · exact .top
    · refine .below ?_
      simp only [List.mem_append, List.mem_cons] at hparent ⊢
      tauto
    · exact .below (by simp)

end Insertion

namespace Addition

variable {nodes nodes' : List Node}

theorem distinctIds (h : Addition nodes nodes') (hids : DistinctIds (builtinNodes nodes)) :
    DistinctIds (builtinNodes nodes') := by
  cases h with
  | @offered front back node parentType hplace hunused htype =>
      have hfresh : node.id ∉ (builtinNodes (front ++ back)).map (·.id) := by
        rintro hmem
        obtain ⟨other, hother, hid⟩ := List.mem_map.1 hmem
        exact (hunused other (List.mem_of_mem_filter hother)).1 hid
      obtain ⟨rule, hrule, hnode, _⟩ := mem_addableTypes_iff.1 htype
      have hbuiltin : node.type.module? = none :=
        hnode ▸ NodeType.module?_type_of_mem_childRules hrule
      simp only [DistinctIds, builtinNodes, List.filter_append, List.map_append] at hids hfresh ⊢
      rw [List.filter_cons_of_pos (by simpa using hbuiltin), List.map_cons, List.nodup_middle]
      exact List.nodup_cons.2 ⟨hfresh, hids⟩
  | @remote front back node module htype =>
      simpa [DistinctIds, builtinNodes, htype, NodeType.module?] using hids

/-- The parent of an offered node is another one. -/
theorem parentId_ne_of_isUnused {node : Node} {parentType : NodeType}
    (hplace : IsPlace nodes parentType node.parentId) (hunused : IsUnused nodes node.id) :
    node.parentId ≠ some node.id := by
  generalize node.parentId = parentId at hplace
  cases hplace with
  | top => exact (Option.some_ne_none _).symm
  | below hparent => exact fun hid => (hunused _ hparent).1 (Option.some.inj hid)

/-- One addition keeps to the limits. -/
theorem keepsLimits (h : Addition nodes nodes') (hids : DistinctIds (builtinNodes nodes))
    (hlimits : KeepsLimits nodes) : KeepsLimits nodes' := by
  intro parentType parentId hplace rule hrule limit hlimit
  cases h with
  | @offered front back node offeringType hoffering hunused htype =>
      rcases isPlace_insert.1 hplace with hplace | ⟨rfl, rfl⟩
      · by_cases hcounts : node.parentId = parentId ∧ node.type = rule.type
        · -- The parent is the one below which the type was offered, so there was room for it.
          obtain ⟨rfl, hnode⟩ := hcounts
          obtain ⟨offering, hmem, hoffered, hroom⟩ := mem_addableTypes_iff.1 htype
          obtain rfl := hoffering.type_unique hids hplace
            (NodeType.module?_of_mem_childRules hmem) (NodeType.module?_of_mem_childRules hrule)
          obtain rfl := NodeType.eq_of_mem_childRules hmem hrule (hoffered.trans hnode)
          have hlt := hroom limit hlimit
          rw [childCount_insert, if_pos ⟨rfl, hnode⟩, ← hnode]
          omega
        · rw [childCount_insert, if_neg hcounts]
          exact hlimits _ _ hplace rule hrule limit hlimit
      · -- The new node has no children yet.
        rw [childCount_insert_of_parentId_ne (parentId_ne_of_isUnused hoffering hunused),
          childCount_eq_zero fun other hother => (hunused other hother).2]
        exact Nat.zero_le _
  | @remote front back node module htype =>
      have hother : node.type ≠ rule.type := by
        intro heq
        have hbuiltin := NodeType.module?_type_of_mem_childRules hrule
        rw [← heq, htype] at hbuiltin
        cases hbuiltin
      rw [childCount_insert_of_type_ne hother]
      rcases isPlace_insert.1 hplace with hplace | ⟨rfl, rfl⟩
      · exact hlimits _ _ hplace rule hrule limit hlimit
      · rw [htype] at hrule
        cases hrule

end Addition

/-! ### Any number of additions -/

theorem DistinctIds.builtinNodes {nodes : List Node} (h : DistinctIds nodes) :
    DistinctIds (builtinNodes nodes) :=
  List.Nodup.sublist (List.filter_sublist.map _) h

/-- What every addition keeps is kept by all of them. -/
theorem keepsLimits_of_reflTransGen {start nodes : List Node}
    (h : Relation.ReflTransGen Addition start nodes) (hids : DistinctIds (builtinNodes start))
    (hlimits : KeepsLimits start) : DistinctIds (builtinNodes nodes) ∧ KeepsLimits nodes := by
  induction h with
  | refl => exact ⟨hids, hlimits⟩
  | tail _ hstep ih => exact ⟨hstep.distinctIds ih.1, hstep.keepsLimits ih.1 ih.2⟩

/-- Whatever is in a list of nodes, a type among the rules of a parent is withheld exactly if its
limit is reached by the children of that very parent.  And in every graph that has grown from one
with distinct ids by what is offered, the limits are kept if they were kept in the beginning, so
that a type is withheld exactly if there are as many children of it as the limit says. -/
theorem additions_keepLimits :
    (∀ nodes parentType parentId, ∀ rule ∈ parentType.childRules,
      rule.type ∉ addableTypes parentType parentId nodes ↔
        ∃ limit ∈ rule.limit, limit ≤ childCount nodes parentId rule.type) ∧
    ∀ start nodes, DistinctIds start → KeepsLimits start →
      Relation.ReflTransGen Addition start nodes →
        KeepsLimits nodes ∧ childCount nodes none .account ≤ 1 ∧
        ∀ parentType parentId, IsPlace nodes parentType parentId →
          ∀ rule ∈ parentType.childRules,
            (rule.type ∉ addableTypes parentType parentId nodes ↔
              rule.limit = some (childCount nodes parentId rule.type)) := by
  refine ⟨fun nodes parentType parentId rule hrule => not_mem_addableTypes_iff hrule, ?_⟩
  intro start nodes hids hlimits hgrown
  have hkeeps := (keepsLimits_of_reflTransGen hgrown hids.builtinNodes hlimits).2
  refine ⟨hkeeps, (keepsLimits_iff.1 hkeeps).1, ?_⟩
  exact fun parentType parentId hplace rule hrule => hkeeps.not_mem_addableTypes_iff hplace hrule

/-! ### Two regions -/

namespace TwoRegions

/-- A node of which only the id, the type and the parent matter. -/
def node (id : String) (type : NodeType) (parentId : Option String) : Node where
  id := id
  type := type
  parentId := parentId
  depth := 0
  label := id
  locals := .empty
  inputs := .empty
  files := []
  position := .origin
  size := .none

def east : Node := node "east" .region none
def west : Node := node "west" .region none
def inner : Node := node "inner" .zone (some "east")
def outer : Node := node "outer" .zone (some "east")
def live : Node := node "live" .account none
def network : Node := node "network" (.remote "vpc") (some "gone")

/-- Two regions, one of which has a zone. -/
def start : List Node := [east, west, inner]

/-- The nodes after a second zone was added, an account, and a module below a missing node. -/
def grown : List Node := [live, east, network, west, inner, outer]

theorem start_grows : Relation.ReflTransGen Addition start grown := by
  have hzone : Addition [east, west, inner] [east, west, inner, outer] :=
    @Addition.offered [east, west, inner] [] outer .region
      (@IsPlace.below _ east (List.mem_cons_self ..)) (by decide) (by decide)
  have haccount : Addition [east, west, inner, outer] [live, east, west, inner, outer] :=
    @Addition.offered [] [east, west, inner, outer] live .root .top (by decide) (by decide)
  have hmodule : Addition [live, east, west, inner, outer] grown :=
    @Addition.remote [live, east] [west, inner, outer] network "vpc" rfl
  exact ((Relation.ReflTransGen.single hzone).tail haccount).tail hmodule

/-- The region with two zones gets no third one, the other one can still get a zone, and there is
no room for another account. -/
theorem grown_withholds :
    DistinctIds start ∧ KeepsLimits start ∧ Relation.ReflTransGen Addition start grown ∧
      KeepsLimits grown ∧ .zone ∉ addableTypes .region (some "east") grown ∧
      .zone ∈ addableTypes .region (some "west") grown ∧
      .account ∉ addableTypes .root none grown := by
  have hids : DistinctIds start := by decide
  have hlimits : KeepsLimits start := by decide
  obtain ⟨hkeeps, _, hwithheld⟩ := additions_keepLimits.2 start grown hids hlimits start_grows
  have heast : IsPlace grown .region (some "east") :=
    @IsPlace.below grown east (List.mem_cons_of_mem _ (List.mem_cons_self ..))
  refine ⟨hids, hlimits, start_grows, hkeeps, ?_, ?_, ?_⟩
  · exact (hwithheld .region (some "east") heast ⟨.zone, some 2⟩ (List.mem_singleton_self _)).2 rfl
  · by_contra hwest
    obtain ⟨limit, hlimit, hreached⟩ := (additions_keepLimits.1 grown .region (some "west")
      ⟨.zone, some 2⟩ (List.mem_singleton_self _)).1 hwest
    obtain rfl := Option.some.inj hlimit
    exact absurd hreached (by decide)
  · exact (hwithheld .root none .top ⟨.account, some 1⟩ (List.mem_singleton_self _)).2 rfl

end TwoRegions

end InfraGraph
