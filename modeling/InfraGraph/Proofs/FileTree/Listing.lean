import InfraGraph.Proofs.FileTree.System

/-!
# Names in a folder that is listed

Whatever path leads to a folder, one more name leads on to the entry with this name.  Links on the
way and slashes at the end of the path make no difference.
-/

namespace InfraGraph

/-- The names of all folders in the tree are names that directories can have. -/
def FileTree.FoldersPlain (t : FileTree) : Prop :=
  ∀ parts es, t.find? parts = some (.folder es) → ∀ name ∈ parts, Path.IsPlain name

theorem FileTree.FoldersPlain.of_find? {t child : FileTree} {path : List String}
    (h : t.FoldersPlain) (hchild : t.find? path = some child) : child.FoldersPlain := by
  intro parts es hfind name hname
  refine h (path ++ parts) es ?_ name (List.mem_append_right _ hname)
  rw [find?_append, hchild]
  exact hfind

/-- What holds for the names that lead to folders can be checked folder by folder. -/
theorem FileTree.forall_folder_iff {t : FileTree} (h : t.WellFormed) {p : List String → Prop} :
    (∀ parts es, t.find? parts = some (.folder es) → p parts) ↔
      ∀ place ∈ foldersIn [] t, p place.1 := by
  constructor
  · intro hall place hplace
    obtain ⟨parts, hparts, hfind⟩ := (mem_foldersIn h).1 hplace
    rw [hparts]
    exact hall parts place.2 hfind
  · intro hall parts es hfind
    exact hall (parts, es) ((mem_foldersIn h).2 ⟨parts, rfl, hfind⟩)

theorem FileTree.foldersPlain_iff {t : FileTree} (h : t.WellFormed) :
    t.FoldersPlain ↔ ∀ place ∈ foldersIn [] t, ∀ name ∈ place.1, Path.IsPlain name :=
  forall_folder_iff h (p := fun parts => ∀ name ∈ parts, Path.IsPlain name)

namespace FileSystem

section Listing

variable {root : FileTree} {here p front ending more : List String}
  {es : List (String × FileTree)}

/-- What ends a path without leading further. -/
def IsEnding (ending : List String) : Prop :=
  ending = [] ∨ ending = [""]

/-- Where a path leads to a folder, a longer one goes on from there, and where it leads to a link, a
longer one goes on behind what the link leads to. -/
theorem descend_append (hending : IsEnding ending) :
    (∀ p es, descend root true here (front ++ ending) = .done (.ok ⟨p, some (.folder es)⟩) →
      descend root true here (front ++ more) = descend root true p more) ∧
    ∀ folder target rest,
      descend root true here (front ++ ending) = .link folder target rest →
        ∃ rest', rest = rest' ++ ending ∧
          descend root true here (front ++ more) = .link folder target (rest' ++ more) := by
  induction front generalizing here with
  | nil =>
      have hdescend : descend root true here ([] ++ ending) =
          .done (.ok ⟨here, root.find? here⟩) := by
        rcases hending with rfl | rfl <;> simp [descend]
      rw [hdescend]
      refine ⟨fun p es h => ?_, by simp⟩
      simp only [Descent.done.injEq, Except.ok.injEq, Place.mk.injEq] at h
      rw [h.1, List.nil_append]
  | cons part front ih =>
      rw [List.cons_append, List.cons_append, descend, descend]
      by_cases hskip : part = "" ∨ part = "."
      · simpa only [if_pos hskip] using ih
      by_cases hup : part = ".."
      · simpa only [if_neg hskip, if_pos hup] using ih
      simp only [if_neg hskip, if_neg hup]
      split
      · simp
      · split
        · split <;> simp
        · exact ih
        · split <;> simp
        · refine ⟨fun p es h => by simp at h, fun folder target rest h => ?_⟩
          simp only [Bool.not_true, Bool.false_eq_true, and_false, if_false,
            Descent.link.injEq] at h ⊢
          obtain ⟨rfl, rfl, rfl⟩ := h
          exact ⟨front, rfl, rfl, rfl, rfl⟩

/-- A path that leads to a folder leads on to what a longer one finds from there. -/
theorem followFrom_append_of_folder (hending : IsEnding ending) {links : Nat}
    {result : Except FileError Place}
    (h : followFrom root true links here (front ++ ending) = .ok ⟨p, some (.folder es)⟩)
    (hmore : descend root true p more = .done result) :
    followFrom root true links here (front ++ more) = result := by
  induction links generalizing here front with
  | zero =>
      rw [followFrom] at h ⊢
      split at h
      · rename_i found hdone
        subst h
        rw [(descend_append hending).1 p es hdone, hmore]
      · cases h
  | succ links ih =>
      rw [followFrom] at h ⊢
      split at h
      · rename_i found hdone
        subst h
        rw [(descend_append hending).1 p es hdone, hmore]
      · rename_i folder target rest hlink
        obtain ⟨rest', rfl, hdescend⟩ :=
          (@descend_append root here front ending more hending).2 folder target rest hlink
        rw [hdescend]
        simp only at h ⊢
        rw [← List.append_assoc] at h ⊢
        exact ih h

/-- A path is followed from the root or from the working directory, unless it is refused. -/
theorem locate_eq_or_error (fs : FileSystem) (path : String) (follow : Bool) :
    fs.locate path follow = followFrom fs.root follow maxLinks
        (if Path.isAbsolute path then [] else fs.workingDirectory) (Path.split path) ∨
      ∃ e, fs.locate path follow = .error e := by
  by_cases hzero : path.toList.contains (Char.ofNat 0)
  · exact .inr ⟨_, by rw [locate, if_pos hzero]⟩
  · by_cases hempty : path = ""
    · exact .inr ⟨_, by rw [locate, if_neg hzero, if_pos hempty]⟩
    · by_cases hsize : maxPathSize < path.utf8ByteSize
      · exact .inr ⟨_, by rw [locate, if_neg hzero, if_neg hempty, if_pos hsize]⟩
      · exact .inl (by rw [locate, if_neg hzero, if_neg hempty, if_neg hsize])

end Listing

/-- The name of a folder leads to it, unless it is refused. -/
theorem exists_descend_singleton {root : FileTree} {p : List String} {name : String}
    {inner : List (String × FileTree)} (hname : Path.IsPlain name)
    (hfind : root.find? (p ++ [name]) = some (.folder inner)) :
    ∃ result, descend root true p [name] = .done result ∧
      (result = .ok ⟨p ++ [name], some (.folder inner)⟩ ∨ ∃ e, result = .error e) := by
  rw [descend, if_neg (by simp [hname.ne_empty, hname.ne_dot]), if_neg hname.ne_dotDot]
  split
  · exact ⟨_, rfl, .inr ⟨_, rfl⟩⟩
  · simp only [hfind, descend]
    exact ⟨_, rfl, .inl rfl⟩

/-- A folder that is listed has no folder under the name of a file in it. -/
theorem find?_ne_folder_of_isFile {fs : FileSystem} {path name : String}
    {es inner : List (String × FileTree)} (hlist : fs.list path = .ok es)
    (hname : Path.IsPlain name) (hfile : fs.isFile (Path.join path name) = true) :
    Entries.find? name es ≠ some (.folder inner) := by
  intro hentry
  obtain ⟨p, hlocate⟩ := exists_locate_of_list hlist
  have hpath : path ≠ "" := by
    rintro rfl
    simp [locate] at hlocate
  obtain ⟨front, _, hjoined, hsplit⟩ := Path.exists_split_join hname hpath
  have hending : ∃ ending, IsEnding ending ∧ Path.split path = front ++ ending := by
    rcases hsplit with hsplit | hsplit
    · exact ⟨[], .inl rfl, by rw [hsplit, List.append_nil]⟩
    · exact ⟨[""], .inr rfl, hsplit⟩
  obtain ⟨ending, hending, hsplit⟩ := hending
  have hstart : followFrom fs.root true maxLinks
      (if Path.isAbsolute path then [] else fs.workingDirectory) (front ++ ending) =
        .ok ⟨p, some (.folder es)⟩ := by
    rcases locate_eq_or_error fs path true with hfollow | ⟨e, herror⟩
    · rw [← hsplit, ← hfollow, hlocate]
    · rw [hlocate] at herror
      cases herror
  rw [isFile, node] at hfile
  -- The longer path starts where the shorter one does, and has to be short enough itself.
  rcases locate_eq_or_error fs (Path.join path name) true with hjoin | ⟨e, hjoin⟩
  · have hfind : fs.root.find? (p ++ [name]) = some (.folder inner) := by
      rw [FileTree.find?_append, ← node_eq_of_locate hlocate, Option.bind_some,
        FileTree.find?_folder_cons, hentry]
      rfl
    obtain ⟨result, hdone, hresult⟩ := exists_descend_singleton hname hfind
    rw [hjoin, Path.isAbsolute_join hname hpath, hjoined,
      followFrom_append_of_folder hending hstart hdone] at hfile
    rcases hresult with rfl | ⟨e, rfl⟩ <;> cases hfile
  · rw [hjoin] at hfile
    cases hfile

end FileSystem

end InfraGraph
