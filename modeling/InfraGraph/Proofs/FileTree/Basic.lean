import InfraGraph.FileTree.Basic
import InfraGraph.Proofs.SortedMap

/-!
# What is at each path of a tree

A tree is looked at through what is at its paths: a file, a link or a folder, whatever may be in it.
Putting a leaf where nothing is, into a folder that is there, changes this at one path only.  The
folders of a well-formed tree are those that a walk through its entries meets, each once.
-/

namespace InfraGraph

namespace FileTree

/-- What a tree is, apart from what is in it. -/
inductive Kind where
  | file (contents : ByteArray)
  | link (target : String)
  | folder

/-- What a tree is, apart from what is in it. -/
def kind : FileTree → Kind
  | .file contents => .file contents
  | .link target => .link target
  | .folder _ => .folder

/-- What is at a path. -/
def kindAt (t : FileTree) (path : List String) : Option Kind :=
  (t.find? path).map kind

/-! ### Following paths -/

@[simp] theorem find?_nil (t : FileTree) : t.find? [] = some t := by
  cases t <;> rfl

theorem find?_folder_cons (es : List (String × FileTree)) (name : String) (rest : List String) :
    (FileTree.folder es).find? (name :: rest) = (Entries.find? name es).bind (·.find? rest) := rfl

theorem find?_append (t : FileTree) (front back : List String) :
    t.find? (front ++ back) = (t.find? front).bind (·.find? back) := by
  induction front generalizing t with
  | nil => simp
  | cons name front ih =>
      cases t with
      | file contents => rfl
      | link target => rfl
      | folder es =>
          rw [List.cons_append, find?_folder_cons, find?_folder_cons]
          cases Entries.find? name es with
          | none => rfl
          | some child => exact ih child

theorem kindAt_append {t child : FileTree} {front : List String} (h : t.find? front = some child)
    (back : List String) : t.kindAt (front ++ back) = child.kindAt back := by
  rw [kindAt, find?_append, h]
  rfl

theorem exists_entries_of_kindAt {t : FileTree} {path : List String}
    (h : t.kindAt path = some .folder) : ∃ es, t.find? path = some (.folder es) := by
  rw [kindAt, Option.map_eq_some_iff] at h
  obtain ⟨node, hnode, hkind⟩ := h
  cases node with
  | file contents => cases hkind
  | link target => cases hkind
  | folder es => exact ⟨es, hnode⟩

/-- What leads to something is a folder. -/
theorem kindAt_of_find?_append {t node : FileTree} {front back : List String} (hback : back ≠ [])
    (h : t.find? (front ++ back) = some node) : t.kindAt front = some .folder := by
  rw [find?_append, Option.bind_eq_some_iff] at h
  obtain ⟨child, hfront, hchild⟩ := h
  obtain ⟨name, rest, rfl⟩ := List.exists_cons_of_ne_nil hback
  rw [kindAt, hfront]
  cases child with
  | file contents => cases hchild
  | link target => cases hchild
  | folder es => rfl

/-! ### Putting things at paths -/

theorem insert_folder_cons (node : FileTree) (name : String) (rest : List String)
    (es : List (String × FileTree)) :
    insert node (name :: rest) (.folder es) =
      .folder (Entries.insert name
        (insert node rest ((Entries.find? name es).getD (.folder []))) es) := by
  simp only [insert]

/-- Below a tree, putting something means putting it into that tree. -/
theorem find?_insert_append {t child : FileTree} {front : List String}
    (h : t.find? front = some child) (node : FileTree) (back : List String) :
    (insert node (front ++ back) t).find? front = some (insert node back child) := by
  induction front generalizing t with
  | nil =>
      obtain rfl : t = child := by simpa using h
      simp
  | cons name front ih =>
      cases t with
      | file contents => cases h
      | link target => cases h
      | folder es =>
          rw [find?_folder_cons, Option.bind_eq_some_iff] at h
          obtain ⟨inner, hinner, hchild⟩ := h
          rw [List.cons_append, insert_folder_cons, find?_folder_cons, Entries.find?_insert,
            if_pos rfl, hinner]
          exact ih hchild

/-- A tree that has nothing inside. -/
def IsLeaf (leaf : FileTree) : Prop :=
  ∀ name rest, leaf.find? (name :: rest) = none

theorem isLeaf_file (contents : ByteArray) : IsLeaf (.file contents) :=
  fun _ _ => rfl

theorem isLeaf_empty : IsLeaf (.folder []) :=
  fun _ _ => rfl

/-- A new leaf in a folder changes what is at its own path, and nothing else. -/
theorem kindAt_insert {t leaf : FileTree} {front : List String} {last : String}
    (hleaf : IsLeaf leaf) (hfront : t.kindAt front = some .folder)
    (hnone : t.kindAt (front ++ [last]) = none) (path : List String) :
    (insert leaf (front ++ [last]) t).kindAt path =
      if path = front ++ [last] then some leaf.kind else t.kindAt path := by
  -- One name further down it is another tree and another path, so both are general.
  induction front generalizing t path with
  | nil =>
      obtain ⟨es, hes⟩ := exists_entries_of_kindAt hfront
      obtain rfl : t = .folder es := by simpa using hes
      rw [List.nil_append, insert_folder_cons]
      cases path with
      | nil => simp [kindAt, kind]
      | cons name rest =>
          rw [kindAt, kindAt, find?_folder_cons, find?_folder_cons, Entries.find?_insert]
          by_cases hname : last = name
          · subst hname
            have hempty : Entries.find? last es = none := by
              simpa [kindAt, find?_folder_cons] using hnone
            cases rest with
            | nil => simp [insert]
            | cons name' rest => simp [insert, hempty, hleaf name' rest]
          · simp [hname, Ne.symm hname]
  | cons first front ih =>
      obtain ⟨es, hes⟩ := exists_entries_of_kindAt hfront
      cases t with
      | file contents => cases hes
      | link target => cases hes
      | folder es =>
          rw [find?_folder_cons, Option.bind_eq_some_iff] at hes
          obtain ⟨child, hchild, hfolder⟩ := hes
          have hfirst : (FileTree.folder es).find? [first] = some child := by
            rw [find?_folder_cons, hchild]
            simp
          have hinner : child.kindAt front = some .folder := by
            rw [kindAt, hfolder]
            rfl
          have hnew : child.kindAt (front ++ [last]) = none := by
            rw [← hnone]
            exact (kindAt_append hfirst (front ++ [last])).symm
          rw [List.cons_append, insert_folder_cons, hchild, Option.getD_some]
          cases path with
          | nil => simp [kindAt, kind]
          | cons name rest =>
              rw [kindAt, kindAt, find?_folder_cons, find?_folder_cons, Entries.find?_insert]
              by_cases hname : first = name
              · subst hname
                rw [if_pos rfl, hchild]
                simpa [kindAt] using ih hinner hnew rest
              · simp [hname, Ne.symm hname]

/-! ### Well-formed trees -/

theorem allWellFormed_iff {es : List (String × FileTree)} :
    AllWellFormed es ↔ ∀ entry ∈ es, entry.2.WellFormed := by
  induction es with
  | nil => simp [AllWellFormed]
  | cons entry rest ih =>
      obtain ⟨name, t⟩ := entry
      rw [AllWellFormed, ih, List.forall_mem_cons]

theorem wellFormed_folder_iff {es : List (String × FileTree)} :
    WellFormed (.folder es) ↔ Entries.Ascending es ∧ ∀ entry ∈ es, entry.2.WellFormed := by
  rw [WellFormed, allWellFormed_iff]

theorem WellFormed.insert {t node : FileTree} (hnode : node.WellFormed) (h : t.WellFormed)
    (path : List String) : (FileTree.insert node path t).WellFormed := by
  induction path generalizing t with
  | nil => simpa [FileTree.insert] using hnode
  | cons name rest ih =>
      cases t with
      | file contents => exact h
      | link target => exact h
      | folder es =>
          obtain ⟨hascending, hall⟩ := wellFormed_folder_iff.1 h
          rw [insert_folder_cons, wellFormed_folder_iff]
          refine ⟨hascending.insert, ?_⟩
          intro entry hentry
          rcases Entries.mem_insert hentry with rfl | hentry
          · refine ih ?_
            cases hchild : Entries.find? name es with
            | none => exact wellFormed_folder_iff.2 ⟨List.Pairwise.nil, by simp⟩
            | some child => exact hall _ (Entries.mem_of_find? hchild)
          · exact hall entry hentry

/-! ### All folders of a tree -/

mutual

/-- The folders in the tree at a path with their entries, a folder before those in it. -/
def foldersIn (path : List String) :
    FileTree → List (List String × List (String × FileTree))
  | .file _ => []
  | .link _ => []
  | .folder es => (path, es) :: foldersOf path es

/-- The folders in some entries of the folder at a path. -/
def foldersOf (path : List String) :
    List (String × FileTree) → List (List String × List (String × FileTree))
  | [] => []
  | (name, t) :: rest => foldersIn (path ++ [name]) t ++ foldersOf path rest

end

/-- What holds of a folder as soon as it holds of everything directly in it holds of every tree. -/
@[elab_as_elim]
theorem inductionOn {motive : FileTree → Prop} (t : FileTree)
    (file : ∀ contents, motive (.file contents)) (link : ∀ target, motive (.link target))
    (folder : ∀ es, (∀ entry ∈ es, motive entry.2) → motive (.folder es)) : motive t := by
  cases t with
  | file contents => exact file contents
  | link target => exact link target
  | folder es => exact folder es fun entry _ => inductionOn entry.2 file link folder
termination_by sizeOf t
decreasing_by
  obtain ⟨name, t⟩ := entry
  have hsize : sizeOf (name, t) < sizeOf es := List.sizeOf_lt_of_mem ‹_›
  simp only [Prod.mk.sizeOf_spec] at hsize
  simp only [FileTree.folder.sizeOf_spec]
  omega

theorem mem_foldersOf {path : List String} {es : List (String × FileTree)}
    {found : List String × List (String × FileTree)} :
    found ∈ foldersOf path es ↔ ∃ entry ∈ es, found ∈ foldersIn (path ++ [entry.1]) entry.2 := by
  induction es with
  | nil => simp [foldersOf]
  | cons entry rest ih =>
      obtain ⟨name, t⟩ := entry
      rw [foldersOf, List.mem_append, ih, List.exists_mem_cons_iff]

/-- The folders of a tree are those that paths lead to. -/
theorem mem_foldersIn {t : FileTree} (h : t.WellFormed) {path : List String}
    {found : List String × List (String × FileTree)} :
    found ∈ foldersIn path t ↔
      ∃ rest, found.1 = path ++ rest ∧ t.find? rest = some (.folder found.2) := by
  induction t using inductionOn generalizing path with
  | file contents =>
      refine iff_of_false (by simp [foldersIn]) ?_
      rintro ⟨rest, _, hrest⟩
      cases rest <;> cases hrest
  | link target =>
      refine iff_of_false (by simp [foldersIn]) ?_
      rintro ⟨rest, _, hrest⟩
      cases rest <;> cases hrest
  | folder es ih =>
      obtain ⟨hascending, hall⟩ := wellFormed_folder_iff.1 h
      rw [foldersIn, List.mem_cons, mem_foldersOf]
      constructor
      · rintro (rfl | ⟨entry, hentry, hfound⟩)
        · exact ⟨[], by simp, by simp⟩
        · obtain ⟨rest, hpath, hrest⟩ := (ih entry hentry (hall entry hentry)).1 hfound
          refine ⟨entry.1 :: rest, by simp [hpath], ?_⟩
          rw [find?_folder_cons, hascending.find?_eq_some_iff.2 hentry]
          exact hrest
      · rintro ⟨rest, hpath, hrest⟩
        cases rest with
        | nil =>
            left
            obtain ⟨found, entries⟩ := found
            simp only [find?_nil, Option.some.injEq, FileTree.folder.injEq] at hrest
            simp only [List.append_nil] at hpath
            rw [hpath, hrest]
        | cons name rest =>
            right
            rw [find?_folder_cons, Option.bind_eq_some_iff] at hrest
            obtain ⟨child, hchild, hrest⟩ := hrest
            have hentry := hascending.find?_eq_some_iff.1 hchild
            exact ⟨(name, child), hentry,
              (ih _ hentry (hall _ hentry)).2 ⟨rest, by simp [hpath], hrest⟩⟩

theorem mem_foldersOf_iff {path : List String} {es : List (String × FileTree)}
    (h : (FileTree.folder es).WellFormed) {found : List String × List (String × FileTree)} :
    found ∈ foldersOf path es ↔ ∃ name rest, found.1 = path ++ name :: rest ∧
      (FileTree.folder es).find? (name :: rest) = some (.folder found.2) := by
  obtain ⟨hascending, hall⟩ := wellFormed_folder_iff.1 h
  rw [mem_foldersOf]
  constructor
  · intro ⟨entry, hentry, hmem⟩
    obtain ⟨rest, hpath, hrest⟩ := (mem_foldersIn (hall entry hentry)).1 hmem
    refine ⟨entry.1, rest, by simp [hpath], ?_⟩
    rw [find?_folder_cons, hascending.find?_eq_some_iff.2 hentry]
    exact hrest
  · intro ⟨name, rest, hpath, hrest⟩
    rw [find?_folder_cons, Option.bind_eq_some_iff] at hrest
    obtain ⟨child, hchild, hrest⟩ := hrest
    have hentry := hascending.find?_eq_some_iff.1 hchild
    exact ⟨(name, child), hentry, (mem_foldersIn (hall _ hentry)).2 ⟨rest, by simp [hpath], hrest⟩⟩

/-- No folder is met twice. -/
theorem nodup_foldersIn {t : FileTree} (h : t.WellFormed) (path : List String) :
    ((foldersIn path t).map (·.1)).Nodup := by
  induction t using inductionOn generalizing path with
  | file contents => exact List.nodup_nil
  | link target => exact List.nodup_nil
  | folder es ih =>
      obtain ⟨hascending, hall⟩ := wellFormed_folder_iff.1 h
      have hinside : ∀ found ∈ foldersOf path es, ∃ entry ∈ es, ∃ rest,
          found.1 = path ++ entry.1 :: rest := by
        intro found hfound
        obtain ⟨entry, hentry, hmem⟩ := mem_foldersOf.1 hfound
        obtain ⟨rest, hpath, _⟩ := (mem_foldersIn (hall entry hentry)).1 hmem
        exact ⟨entry, hentry, rest, by simp [hpath]⟩
      rw [foldersIn, List.map_cons, List.nodup_cons]
      constructor
      · intro hmem
        obtain ⟨found, hfound, hpath⟩ := List.mem_map.1 hmem
        obtain ⟨entry, _, rest, hfound⟩ := hinside found hfound
        rw [hfound] at hpath
        simp at hpath
      · clear hinside
        induction es with
        | nil => exact List.nodup_nil
        | cons entry es ihes =>
            obtain ⟨name, t⟩ := entry
            rw [List.forall_mem_cons] at ih hall
            rw [foldersOf, List.map_append, List.nodup_append]
            have hrest : (FileTree.folder es).WellFormed :=
              wellFormed_folder_iff.2 ⟨hascending.tail, hall.2⟩
            refine ⟨ih.1 hall.1 _, ihes ih.2 hrest hascending.tail hall.2, ?_⟩
            · intro p hp q hq heq
              obtain ⟨found, hfound, rfl⟩ := List.mem_map.1 hp
              obtain ⟨found', hfound', rfl⟩ := List.mem_map.1 hq
              obtain ⟨rest, hpath, _⟩ := (mem_foldersIn hall.1).1 hfound
              obtain ⟨entry', hentry', hmem⟩ := mem_foldersOf.1 hfound'
              obtain ⟨rest', hpath', _⟩ := (mem_foldersIn (hall.2 _ hentry')).1 hmem
              rw [hpath, hpath', List.append_assoc, List.append_assoc] at heq
              have hname := (List.cons.inj (List.append_cancel_left heq)).1
              have hlt := (List.pairwise_cons.1 hascending).1 entry' hentry'
              rw [hname] at hlt
              exact String.lt_irrefl _ hlt

/-! ### Plain files -/

theorem plainFiles_append (front back : List (String × FileTree)) :
    plainFiles (front ++ back) = plainFiles front ++ plainFiles back := by
  induction front with
  | nil => rfl
  | cons entry front ih =>
      obtain ⟨name, t⟩ := entry
      cases t with
      | file contents => rw [List.cons_append, plainFiles, plainFiles, ih, List.cons_append]
      | link target => rw [List.cons_append, plainFiles, plainFiles, ih] <;> simp
      | folder es => rw [List.cons_append, plainFiles, plainFiles, ih] <;> simp

theorem mem_plainFiles {es : List (String × FileTree)} {file : String × ByteArray} :
    file ∈ plainFiles es ↔ (file.1, .file file.2) ∈ es := by
  obtain ⟨name, contents⟩ := file
  induction es with
  | nil => simp [plainFiles]
  | cons entry rest ih =>
      obtain ⟨name', t⟩ := entry
      cases t with
      | file contents' => simp [plainFiles, ih]
      | link target => simp [plainFiles, ih]
      | folder es => simp [plainFiles, ih]

theorem plainFiles_sublist (es : List (String × FileTree)) :
    ((plainFiles es).map (·.1)).Sublist (es.map (·.1)) := by
  induction es with
  | nil => exact List.Sublist.refl _
  | cons entry rest ih =>
      obtain ⟨name, t⟩ := entry
      cases t with
      | file contents => exact ih.cons_cons name
      | link target => exact ih.cons name
      | folder es => exact ih.cons name

theorem nodup_plainFiles {es : List (String × FileTree)} (h : Entries.Ascending es) :
    ((plainFiles es).map (·.1)).Nodup :=
  (plainFiles_sublist es).nodup h.keys_nodup

/-- The plain files of a folder in a tree are the files one name further down. -/
theorem mem_plainFiles_iff_kindAt {t : FileTree} {path : List String}
    {es : List (String × FileTree)} (h : t.find? path = some (.folder es))
    (hes : Entries.Ascending es) {name : String} {contents : ByteArray} :
    (name, contents) ∈ plainFiles es ↔ t.kindAt (path ++ [name]) = some (.file contents) := by
  rw [mem_plainFiles, ← hes.find?_eq_some_iff, kindAt_append h, kindAt, find?_folder_cons]
  cases Entries.find? name es with
  | none => simp
  | some child => cases child <;> simp [kind]

/-- A folder in a well-formed tree has its entries in order. -/
theorem WellFormed.of_find? {t child : FileTree} {path : List String} (h : t.WellFormed)
    (hchild : t.find? path = some child) : child.WellFormed := by
  induction path generalizing t with
  | nil =>
      obtain rfl : t = child := by simpa using hchild
      exact h
  | cons name rest ih =>
      cases t with
      | file contents => cases hchild
      | link target => cases hchild
      | folder es =>
          rw [find?_folder_cons, Option.bind_eq_some_iff] at hchild
          obtain ⟨inner, hinner, hchild⟩ := hchild
          exact ih ((wellFormed_folder_iff.1 h).2 _ (Entries.mem_of_find? hinner)) hchild

end FileTree

end InfraGraph
