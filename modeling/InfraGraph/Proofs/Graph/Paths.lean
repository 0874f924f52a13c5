import InfraGraph.Proofs.Failure
import InfraGraph.Proofs.Graph.Lineage
import InfraGraph.Proofs.Path
import InfraGraph.Proofs.SortedMap

/-!
# Directories of lineages

Resolving the directories of a graph places one lineage after the other, in the order of the
depth-first walk.  So it succeeds exactly when every lineage can be placed, and its failure is that
of the first lineage that can't.  Where ids are distinct no lineage is too long, and the result
gives each node the directory of its only lineage.
-/

namespace InfraGraph

/-! ### Names made from labels -/

theorem isUsableName_iff {name : String} :
    isUsableName name = true ↔ name ≠ "" ∧ name ≠ "." ∧ name ≠ ".." := by
  simp [isUsableName, and_assoc]

theorem not_mem_sanitizeLabel_of_separator {c : Char} (label : String) (h : c = '/' ∨ c = '\\') :
    c ∉ (sanitizeLabel label).toList := by
  simp only [sanitizeLabel, String.toList_ofList, List.mem_map, not_exists, not_and]
  intro d _ hd
  split at hd
  · rcases h with rfl | rfl <;> simp at hd
  · rename_i hsep
    exact hsep (hd ▸ h)

theorem isPlain_sanitizeLabel {label : String} (h : isUsableName (sanitizeLabel label) = true) :
    Path.IsPlain (sanitizeLabel label) := by
  obtain ⟨hempty, hdot, hdotDot⟩ := isUsableName_iff.1 h
  exact ⟨hempty, hdot, hdotDot, not_mem_sanitizeLabel_of_separator label (.inl rfl)⟩

/-- The label of the node makes the name of a directory, or the node needs none. -/
def Node.HasUsableLabel (node : Node) : Prop :=
  node.type = .root ∨ isUsableName (sanitizeLabel node.label) = true

theorem belowDirectory_unsplit {parts : List String} (h : ∀ part ∈ parts, Path.IsPlain part)
    (name : String) :
    belowDirectory (Path.unsplit parts) name = Path.unsplit (parts ++ [name]) := by
  by_cases hne : parts = []
  · simp [belowDirectory, hne]
  · rw [belowDirectory, if_neg (Path.unsplit_ne_empty hne h), Path.unsplit_concat hne]

/-! ### Parts of the directory of a lineage -/

section Parts

variable {node : Node} {above : List Node}

theorem directoryParts_of_root (h : node.type = .root) :
    directoryParts (node :: above) = directoryParts above := by
  simp [directoryParts, h]

theorem directoryParts_of_ne_root (h : node.type ≠ .root) :
    directoryParts (node :: above) = directoryParts above ++ [sanitizeLabel node.label] := by
  simp [directoryParts, h]

/-- Labels that are names of directories as they are lead to a node. -/
theorem directoryParts_eq_map_label {lineage : List Node}
    (h : ∀ node ∈ lineage, node.type ≠ .root ∧ sanitizeLabel node.label = node.label) :
    directoryParts lineage = (lineage.map (·.label)).reverse := by
  induction lineage with
  | nil => rfl
  | cons node above ih =>
      rw [List.forall_mem_cons] at h
      rw [directoryParts_of_ne_root h.1.1, h.1.2, ih h.2, List.map_cons, List.reverse_cons]

theorem directoryParts_ne_nil (h : node.type ≠ .root) : directoryParts (node :: above) ≠ [] := by
  simp [directoryParts_of_ne_root h]

theorem exists_of_mem_directoryParts {lineage : List Node} {part : String}
    (h : part ∈ directoryParts lineage) :
    ∃ node ∈ lineage, node.type ≠ .root ∧ part = sanitizeLabel node.label := by
  induction lineage with
  | nil => cases h
  | cons node above ih =>
      by_cases hroot : node.type = .root
      · rw [directoryParts_of_root hroot] at h
        obtain ⟨other, hother, hpart⟩ := ih h
        exact ⟨other, List.mem_cons_of_mem _ hother, hpart⟩
      · rw [directoryParts_of_ne_root hroot, List.mem_append, List.mem_singleton] at h
        rcases h with h | rfl
        · obtain ⟨other, hother, hpart⟩ := ih h
          exact ⟨other, List.mem_cons_of_mem _ hother, hpart⟩
        · exact ⟨node, List.mem_cons_self, hroot, rfl⟩

/-- What holds of every label that is usable holds of every part. -/
theorem forall_mem_directoryParts {lineage : List Node} {p : String → Prop}
    (hp : ∀ label, isUsableName (sanitizeLabel label) = true → p (sanitizeLabel label))
    (h : ∀ node ∈ lineage, node.HasUsableLabel) : ∀ part ∈ directoryParts lineage, p part := by
  intro part hpart
  obtain ⟨node, hnode, hroot, rfl⟩ := exists_of_mem_directoryParts hpart
  exact hp node.label ((h node hnode).resolve_left hroot)

theorem isPlain_directoryParts {lineage : List Node} (h : ∀ node ∈ lineage, node.HasUsableLabel) :
    ∀ part ∈ directoryParts lineage, Path.IsPlain part :=
  forall_mem_directoryParts (fun _ => isPlain_sanitizeLabel) h

end Parts

/-! ### Placing one lineage -/

/-- The entry of a lineage in the map of directories.  Nodes of type `root` have none. -/
def lineageEntry : List Node → List (String × String)
  | [] => []
  | node :: above =>
    if node.type = .root then []
    else [(node.id, Path.unsplit (directoryParts (node :: above)))]

/-- Places a lineage, which fails if it is longer than the list of nodes or if its first node has no
usable label. -/
def placeLineage (nodes : List Node) : List Node → Except GraphError (List (String × String))
  | [] => .ok []
  | node :: above =>
    if nodes.length ≤ above.length then .error (.endlessNesting node.id)
    else if node.type = .root ∨ isUsableName (sanitizeLabel node.label) then
      .ok (lineageEntry (node :: above))
    else .error (.missingLabel node.id)

/-- A lineage that can be placed. -/
def IsPlaceable (nodes : List Node) : List Node → Prop
  | [] => True
  | node :: above => above.length < nodes.length ∧ node.HasUsableLabel

section Placing

variable {nodes : List Node} {node : Node} {above : List Node}

theorem placeLineage_eq_ok_iff {lineage : List Node} {entries : List (String × String)} :
    placeLineage nodes lineage = .ok entries ↔
      IsPlaceable nodes lineage ∧ entries = lineageEntry lineage := by
  cases lineage with
  | nil => simp [placeLineage, IsPlaceable, lineageEntry, eq_comm]
  | cons node above =>
      simp only [placeLineage, IsPlaceable, Node.HasUsableLabel]
      split
      · simp; omega
      · split
        · rename_i hlength hlabel
          simp only [Except.ok.injEq, hlabel, and_true]
          exact ⟨fun h => ⟨by omega, h.symm⟩, fun h => h.2.symm⟩
        · rename_i _ hlabel
          simp [hlabel]

/-- Placing a node below the directory of its lineage is placing its own lineage. -/
theorem place_eq (habove : ∀ part ∈ directoryParts above, Path.IsPlain part)
    (hlength : above.length < nodes.length) :
    node.place (Path.unsplit (directoryParts above)) =
      (placeLineage nodes (node :: above)).map fun entry =>
        (Path.unsplit (directoryParts (node :: above)), entry) := by
  by_cases hroot : node.type = .root
  · simp [Node.place, placeLineage, lineageEntry, hroot, directoryParts_of_root, Except.map,
      Nat.not_le.2 hlength]
  · by_cases hlabel : isUsableName (sanitizeLabel node.label) = true
    · simp [Node.place, placeLineage, lineageEntry, hroot, directoryParts_of_ne_root, Except.map,
        Nat.not_le.2 hlength, hlabel, belowDirectory_unsplit habove]
    · simp [Node.place, placeLineage, hroot, Except.map, Nat.not_le.2 hlength, hlabel]

/-- The walk places one lineage after the other. -/
theorem placeBelow_eq {depth : Nat} (habove : ∀ part ∈ directoryParts above, Path.IsPlain part)
    (hdepth : above.length + depth = nodes.length) :
    placeBelow nodes depth (Path.unsplit (directoryParts above)) node =
      ((lineagesBelow nodes depth above node).mapM (placeLineage nodes)).map List.flatten := by
  induction depth generalizing above node with
  | zero =>
      have hlength : nodes.length ≤ above.length := by omega
      simp only [placeBelow, lineagesBelow, List.mapM_cons, placeLineage, hlength, if_true]
      rfl
  | succ depth ih =>
      have hlength : above.length < nodes.length := by omega
      rw [placeBelow, place_eq habove hlength, lineagesBelow, List.mapM_cons]
      cases hplace : placeLineage nodes (node :: above) with
      | error e => rfl
      | ok entry =>
          obtain ⟨⟨_, hlabel⟩, _⟩ := placeLineage_eq_ok_iff.1 hplace
          have hparts : ∀ part ∈ directoryParts (node :: above), Path.IsPlain part := by
            by_cases hroot : node.type = .root
            · rwa [directoryParts_of_root hroot]
            · rw [directoryParts_of_ne_root hroot, Path.forall_isPlain_concat]
              exact ⟨habove, isPlain_sanitizeLabel (hlabel.resolve_left hroot)⟩
          have hdepth' : (node :: above).length + depth = nodes.length := by
            simp only [List.length_cons]
            omega
          have hbelow : (childrenOf nodes (some node.id)).mapM
              (placeBelow nodes depth (Path.unsplit (directoryParts (node :: above)))) =
                (childrenOf nodes (some node.id)).mapM fun child =>
                  ((lineagesBelow nodes depth (node :: above) child).mapM
                    (placeLineage nodes)).map List.flatten :=
            congrArg (List.mapM · _) (funext fun child => ih hparts hdepth')
          have hgroups := (flatten_mapM_flatMap (f := placeLineage nodes)
            (lineagesBelow nodes depth (node :: above)) (childrenOf nodes (some node.id))).symm
          rw [← hbelow] at hgroups
          revert hgroups
          simp only [Except.map, bind, Except.bind]
          cases List.mapM (placeLineage nodes) ((childrenOf nodes (some node.id)).flatMap
              (lineagesBelow nodes depth (node :: above))) <;>
            cases List.mapM (placeBelow nodes depth (Path.unsplit (directoryParts (node :: above))))
                (childrenOf nodes (some node.id)) <;>
              simp +contextual [pure, Except.pure]

end Placing

/-! ### Resolving all directories -/

section Resolving

variable {nodes : List Node} {paths : PathMap}

theorem resolvePaths_eq (nodes : List Node) :
    resolvePaths nodes =
      ((lineages nodes).mapM (placeLineage nodes)).map fun placed =>
        SortedMap.ofList placed.flatten := by
  have htop : (childrenOf nodes none).mapM (placeBelow nodes nodes.length "") =
      (childrenOf nodes none).mapM fun node =>
        ((lineagesBelow nodes nodes.length [] node).mapM (placeLineage nodes)).map List.flatten :=
    congrArg (List.mapM · _) <| funext fun node => by
      have habove : ∀ part ∈ directoryParts [], Path.IsPlain part := by simp [directoryParts]
      have hplace := @placeBelow_eq nodes node [] nodes.length habove (Nat.zero_add _)
      simpa [directoryParts] using hplace
  have hgroups := (flatten_mapM_flatMap (f := placeLineage nodes)
    (lineagesBelow nodes nodes.length []) (childrenOf nodes none)).symm
  rw [← htop] at hgroups
  revert hgroups
  simp only [resolvePaths, lineages, Except.map, bind, Except.bind]
  cases List.mapM (placeLineage nodes)
      ((childrenOf nodes none).flatMap (lineagesBelow nodes nodes.length [])) <;>
    cases List.mapM (placeBelow nodes nodes.length "") (childrenOf nodes none) <;>
      simp +contextual [pure, Except.pure]

theorem resolvePaths_eq_ok_iff :
    resolvePaths nodes = .ok paths ↔
      (∀ lineage ∈ lineages nodes, IsPlaceable nodes lineage) ∧
        paths = SortedMap.ofList ((lineages nodes).flatMap lineageEntry) := by
  rw [resolvePaths_eq, map_eq_ok_iff]
  constructor
  · rintro ⟨placed, hplaced, rfl⟩
    have hforall := mapM_eq_ok_iff.1 hplaced
    have hplaceable : ∀ lineage ∈ lineages nodes, IsPlaceable nodes lineage := by
      intro lineage hlineage
      obtain ⟨entries, hentries⟩ := exists_mapM_eq_ok_iff.1 ⟨placed, hplaced⟩ lineage hlineage
      exact (placeLineage_eq_ok_iff.1 hentries).1
    refine ⟨hplaceable, ?_⟩
    have hmap := mapM_eq_ok_map fun lineage hlineage =>
      placeLineage_eq_ok_iff.2 ⟨hplaceable lineage hlineage, rfl⟩
    rw [hplaced] at hmap
    rw [Except.ok.inj hmap, List.flatMap_def]
  · rintro ⟨hplaceable, rfl⟩
    refine ⟨(lineages nodes).map lineageEntry, mapM_eq_ok_map fun lineage hlineage => ?_, ?_⟩
    · exact placeLineage_eq_ok_iff.2 ⟨hplaceable lineage hlineage, rfl⟩
    · rw [List.flatMap_def]

/-- A failure is that of the first lineage that can't be placed. -/
theorem exists_meets_of_resolvePaths {e : GraphError} (h : resolvePaths nodes = .error e) :
    ∃ front lineage back, lineages nodes = front ++ lineage :: back ∧
      (∀ earlier ∈ front, IsPlaceable nodes earlier) ∧ placeLineage nodes lineage = .error e := by
  rw [resolvePaths_eq, map_eq_error_iff] at h
  obtain ⟨front, lineage, back, hsplit, hfront, hplace⟩ := mapM_eq_error_iff.1 h
  refine ⟨front, lineage, back, hsplit, fun earlier hmem => ?_, hplace⟩
  obtain ⟨entries, hentries⟩ := hfront earlier hmem
  exact (placeLineage_eq_ok_iff.1 hentries).1

/-- All lineages the walk meets can be placed exactly when no lineage is longer than the list of
nodes and all labels on lineages are usable. -/
theorem forall_isPlaceable_iff :
    (∀ lineage ∈ lineages nodes, IsPlaceable nodes lineage) ↔
      ∀ lineage, IsLineage nodes lineage →
        lineage.length ≤ nodes.length ∧ ∀ node ∈ lineage, node.HasUsableLabel := by
  constructor
  · intro h
    have hlength : ∀ lineage, IsLineage nodes lineage → lineage.length ≤ nodes.length := by
      intro lineage hlineage
      by_contra hlong
      -- The end of the lineage, one node longer than the list of nodes.
      let front := lineage.length - (nodes.length + 1)
      have htail : IsLineage nodes (lineage.drop front) :=
        hlineage.of_suffix (List.drop_suffix _ _)
      have hdrop : (lineage.drop front).length = nodes.length + 1 := by
        rw [List.length_drop]
        omega
      have hne : lineage.drop front ≠ [] := by
        intro hnil
        simp [hnil] at hdrop
      have hplace := h _ (mem_lineages.2 ⟨htail, hne, Nat.le_of_eq hdrop⟩)
      obtain ⟨node, above, hcons⟩ := List.exists_cons_of_ne_nil hne
      rw [hcons] at hplace hdrop
      have := hplace.1
      simp only [List.length_cons] at hdrop
      omega
    refine fun lineage hlineage => ⟨hlength lineage hlineage, fun node hnode => ?_⟩
    obtain ⟨front, above, rfl⟩ := List.append_of_mem hnode
    have htail : IsLineage nodes (node :: above) := hlineage.of_suffix ⟨front, rfl⟩
    have hmem := mem_lineages.2 ⟨htail, List.cons_ne_nil _ _, Nat.le_succ_of_le (hlength _ htail)⟩
    exact (h _ hmem).2
  · intro h lineage hmem
    obtain ⟨hlineage, hne, _⟩ := mem_lineages.1 hmem
    obtain ⟨node, above, rfl⟩ := List.exists_cons_of_ne_nil hne
    obtain ⟨hlength, hlabels⟩ := h _ hlineage
    exact ⟨hlength, hlabels node List.mem_cons_self⟩

theorem mem_lineageEntry {id path : String} {lineage : List Node} :
    (id, path) ∈ lineageEntry lineage ↔
      ∃ node above, lineage = node :: above ∧ node.type ≠ .root ∧ id = node.id ∧
        path = Path.unsplit (directoryParts lineage) := by
  cases lineage with
  | nil => simp [lineageEntry]
  | cons node above =>
      by_cases hroot : node.type = .root
      · simp only [lineageEntry, hroot, if_true, List.not_mem_nil, false_iff, not_exists]
        rintro node' above' ⟨hcons, hne, _⟩
        obtain ⟨rfl, rfl⟩ := List.cons.inj hcons
        exact hne hroot
      · simp only [lineageEntry, hroot, if_false, List.mem_singleton, Prod.mk.injEq]
        constructor
        · rintro ⟨rfl, rfl⟩
          exact ⟨node, above, rfl, hroot, rfl, rfl⟩
        · rintro ⟨node', above', hcons, _, rfl, rfl⟩
          obtain ⟨rfl, rfl⟩ := List.cons.inj hcons
          exact ⟨rfl, rfl⟩

/-- Every directory in the result is that of a lineage, whose labels are all usable. -/
theorem exists_lineage_of_find? (h : resolvePaths nodes = .ok paths) {id path : String}
    (hfind : paths.find? id = some path) :
    ∃ node above, IsLineage nodes (node :: above) ∧ node.type ≠ .root ∧ node.id = id ∧
      path = Path.unsplit (directoryParts (node :: above)) := by
  obtain ⟨_, rfl⟩ := resolvePaths_eq_ok_iff.1 h
  obtain ⟨lineage, hmem, hentry⟩ := List.mem_flatMap.1 (SortedMap.mem_of_find?_ofList hfind)
  obtain ⟨node, above, rfl, hroot, rfl, rfl⟩ := mem_lineageEntry.1 hentry
  exact ⟨node, above, (mem_lineages.1 hmem).1, hroot, rfl, rfl⟩

theorem hasUsableLabel_of_resolvePaths (h : resolvePaths nodes = .ok paths) {lineage : List Node}
    (hlineage : IsLineage nodes lineage) : ∀ node ∈ lineage, node.HasUsableLabel :=
  (forall_isPlaceable_iff.1 (resolvePaths_eq_ok_iff.1 h).1 lineage hlineage).2

theorem isPlain_of_resolvePaths (h : resolvePaths nodes = .ok paths) {lineage : List Node}
    (hlineage : IsLineage nodes lineage) :
    ∀ part ∈ directoryParts lineage, Path.IsPlain part :=
  isPlain_directoryParts (hasUsableLabel_of_resolvePaths h hlineage)

/-! ### Distinct ids -/

/-- Where ids are distinct only labels can keep directories from being resolved. -/
theorem exists_resolvePaths_eq_ok_iff (hids : DistinctIds nodes) :
    (∃ paths, resolvePaths nodes = .ok paths) ↔
      ∀ node parts, LiesAt nodes node parts → node.HasUsableLabel := by
  simp only [resolvePaths_eq_ok_iff, forall_isPlaceable_iff]
  constructor
  · rintro ⟨_, h, _⟩ node parts ⟨above, hlineage, _⟩
    exact (h _ hlineage).2 node List.mem_cons_self
  · intro h
    refine ⟨_, fun lineage hlineage => ⟨hlineage.length_le hids, fun node hnode => ?_⟩, rfl⟩
    obtain ⟨front, above, rfl⟩ := List.append_of_mem hnode
    exact h node _ ⟨above, hlineage.of_suffix ⟨front, rfl⟩, rfl⟩

/-- Where ids are distinct no lineage is too long, so only its label keeps a node from being
placed. -/
theorem DistinctIds.missingLabel_of_placeLineage (hids : DistinctIds nodes) {node : Node}
    {above : List Node} (hlineage : IsLineage nodes (node :: above)) {e : GraphError}
    (h : placeLineage nodes (node :: above) = .error e) :
    ¬ node.HasUsableLabel ∧ e = .missingLabel node.id := by
  have hlength : ¬ nodes.length ≤ above.length := by
    have hle := hlineage.length_le hids
    simp only [List.length_cons] at hle
    omega
  rw [placeLineage, if_neg hlength] at h
  split at h
  · cases h
  · rename_i hlabel
    exact ⟨hlabel, (Except.error.inj h).symm⟩

/-- Where ids are distinct every failure is that of a label. -/
theorem exists_missingLabel_of_resolvePaths (hids : DistinctIds nodes) {e : GraphError}
    (h : resolvePaths nodes = .error e) :
    ∃ node parts, LiesAt nodes node parts ∧ ¬ node.HasUsableLabel ∧ e = .missingLabel node.id := by
  obtain ⟨front, lineage, back, hsplit, _, hplace⟩ := exists_meets_of_resolvePaths h
  have hmem : lineage ∈ lineages nodes := by simp [hsplit]
  obtain ⟨hlineage, hne, _⟩ := mem_lineages.1 hmem
  obtain ⟨node, above, rfl⟩ := List.exists_cons_of_ne_nil hne
  obtain ⟨hlabel, rfl⟩ := hids.missingLabel_of_placeLineage hlineage hplace
  exact ⟨node, _, ⟨above, hlineage, rfl⟩, hlabel, rfl⟩

/-- Where ids are distinct the result gives each node the directory of its lineage. -/
theorem find?_resolvePaths (hids : DistinctIds nodes) (h : resolvePaths nodes = .ok paths)
    {id path : String} :
    paths.find? id = some path ↔
      ∃ node parts, node.type ≠ .root ∧ node.id = id ∧ LiesAt nodes node parts ∧
        path = Path.unsplit parts := by
  constructor
  · intro hfind
    obtain ⟨node, above, hlineage, hroot, hid, hpath⟩ := exists_lineage_of_find? h hfind
    exact ⟨node, _, hroot, hid, ⟨above, hlineage, rfl⟩, hpath⟩
  · rintro ⟨node, parts, hroot, rfl, hlies, rfl⟩
    obtain ⟨above, hlineage, hparts⟩ := id hlies
    have hkey : node.id ∈ paths.keys := by
      obtain ⟨_, rfl⟩ := resolvePaths_eq_ok_iff.1 h
      rw [SortedMap.mem_keys_ofList, List.mem_map]
      refine ⟨(node.id, Path.unsplit (directoryParts (node :: above))), ?_, rfl⟩
      exact List.mem_flatMap.2 ⟨_, hids.cons_mem_lineages hlineage,
        mem_lineageEntry.2 ⟨node, above, rfl, hroot, rfl, rfl⟩⟩
    obtain ⟨path, hfind⟩ := SortedMap.mem_keys_iff.1 hkey
    obtain ⟨node', above', hlineage', hroot', hid, rfl⟩ := exists_lineage_of_find? h hfind
    obtain rfl := hids.eq_of_id_eq hlineage'.1 hlineage.1 hid
    rw [hfind, LiesAt.unique hids hlies ⟨above', hlineage', rfl⟩]

end Resolving

/-! ### Uniqueness -/

theorem firstRepeat?_eq_none_iff {seen entries : List (String × String)} :
    firstRepeat? seen entries = none ↔
      (entries.map (·.2)).Nodup ∧ ∀ entry ∈ entries, entry.2 ∉ seen.map (·.2) := by
  induction entries generalizing seen with
  | nil => simp [firstRepeat?]
  | cons entry rest ih =>
      obtain ⟨key, value⟩ := entry
      unfold firstRepeat?
      cases hseen : seen.find? fun entry => entry.2 = value with
      | some first =>
          have hmem : value ∈ seen.map (·.2) := by
            have hvalue : first.2 = value := by simpa using List.find?_some hseen
            exact List.mem_map.2 ⟨first, List.mem_of_find?_eq_some hseen, hvalue⟩
          refine iff_of_false (by simp) fun h => ?_
          exact h.2 _ List.mem_cons_self hmem
      | none =>
          have hnone : value ∉ seen.map (·.2) := by
            intro hmem
            obtain ⟨first, hfirst, hvalue⟩ := List.mem_map.1 hmem
            simpa [hvalue] using List.find?_eq_none.1 hseen first hfirst
          simp only [ih, List.map_cons, List.nodup_cons, List.mem_cons, not_or]
          constructor
          · rintro ⟨hnodup, hrest⟩
            refine ⟨⟨fun hmem => ?_, hnodup⟩, ?_⟩
            · obtain ⟨entry, hentry, hvalue⟩ := List.mem_map.1 hmem
              exact (hrest entry hentry).1 hvalue
            · rintro entry (rfl | hentry)
              · exact hnone
              · exact (hrest entry hentry).2
          · rintro ⟨⟨hfresh, hnodup⟩, hrest⟩
            refine ⟨hnodup, fun entry hentry => ⟨fun hvalue => ?_, hrest entry (.inr hentry)⟩⟩
            exact hfresh (List.mem_map.2 ⟨entry, hentry, hvalue⟩)

/-- A map is accepted when no directory comes twice in it. -/
theorem ensureUnique_eq_ok_iff {paths : PathMap} :
    ensureUnique paths = .ok () ↔ paths.values.Nodup := by
  unfold ensureUnique
  cases h : firstRepeat? [] paths.toList with
  | none => simpa [SortedMap.values] using (firstRepeat?_eq_none_iff.1 h).1
  | some repeated =>
      have hne : firstRepeat? [] paths.toList ≠ none := by simp [h]
      have hnodup : ¬ paths.values.Nodup := by
        intro hnodup
        exact hne (firstRepeat?_eq_none_iff.2 ⟨hnodup, by simp⟩)
      simp [hnodup]

/-- The value that is found comes again for the first time. -/
theorem exists_of_firstRepeat? {seen entries : List (String × String)} {path first second : String}
    (h : firstRepeat? seen entries = some (path, first, second)) :
    ∃ front back, entries = front ++ (second, path) :: back ∧ firstRepeat? seen front = none ∧
      (first, path) ∈ front.reverse ++ seen := by
  induction entries generalizing seen with
  | nil => simp [firstRepeat?] at h
  | cons entry rest ih =>
      obtain ⟨key, value⟩ := entry
      unfold firstRepeat? at h
      cases hseen : seen.find? fun entry => entry.2 = value with
      | some found =>
          obtain ⟨key', value'⟩ := found
          simp only [hseen, Option.some.injEq, Prod.mk.injEq] at h
          obtain ⟨rfl, rfl, rfl⟩ := h
          have hvalue : value' = value := by simpa using List.find?_some hseen
          subst hvalue
          exact ⟨[], rest, rfl, rfl, List.mem_of_find?_eq_some hseen⟩
      | none =>
          simp only [hseen] at h
          obtain ⟨front, back, rfl, hfront, hmem⟩ := ih h
          refine ⟨(key, value) :: front, back, rfl, ?_, by simpa using hmem⟩
          rw [firstRepeat?, hseen]
          exact hfront

/-- Otherwise the failure names two nodes that have a directory in common. -/
theorem exists_pathCollision_of_ensureUnique {paths : PathMap} (h : ¬ paths.values.Nodup) :
    ∃ path first second, ensureUnique paths = .error (.pathCollision path first second) ∧
      first ≠ second ∧ paths.find? first = some path ∧ paths.find? second = some path := by
  cases hrepeat : firstRepeat? [] paths.toList with
  | none => exact absurd (firstRepeat?_eq_none_iff.1 hrepeat).1 h
  | some repeated =>
      obtain ⟨path, first, second⟩ := repeated
      refine ⟨path, first, second, by simp [ensureUnique, hrepeat], ?_⟩
      obtain ⟨front, back, hsplit, _, hmem⟩ := exists_of_firstRepeat? hrepeat
      rw [List.append_nil, List.mem_reverse] at hmem
      have hkeys := paths.keys_nodup
      rw [SortedMap.keys, hsplit, List.map_append, List.nodup_append] at hkeys
      refine ⟨hkeys.2.2 first (List.mem_map.2 ⟨_, hmem, rfl⟩) second (by simp), ?_, ?_⟩
      · exact SortedMap.mem_toList_iff.1 (by rw [hsplit]; exact List.mem_append_left _ hmem)
      · exact SortedMap.mem_toList_iff.1 (by rw [hsplit]; simp)

end InfraGraph
