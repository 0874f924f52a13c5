import InfraGraph.Proofs.FileTree.Basic
import InfraGraph.Proofs.Path.Absolute

/-!
# Writing below a folder

A path of names that leads through folders only is followed without links, so it leads to its own
names.  What may keep it from doing so is its size alone.  A new file or folder in a folder that is
there is then put at exactly these names.
-/

namespace InfraGraph

/-- What leads to a folder is a folder. -/
theorem FileTree.kindAt_front {t : FileTree} {front back : List String}
    (h : t.kindAt (front ++ back) = some .folder) : t.kindAt front = some .folder := by
  cases back with
  | nil => simpa using h
  | cons name rest =>
      obtain ⟨es, hes⟩ := exists_entries_of_kindAt h
      exact kindAt_of_find?_append (by simp) hes

namespace FileSystem

open InfraGraph.Path

/-- A path that isn't too long, of names that aren't too long, without zero characters. -/
structure Fits (names : List String) : Prop where
  name_size : ∀ name ∈ names, name.utf8ByteSize ≤ maxNameSize
  path_size : (absolute names).utf8ByteSize ≤ maxPathSize
  no_zero : Char.ofNat 0 ∉ (absolute names).toList

theorem fits_iff {names : List String} :
    Fits names ↔ (∀ name ∈ names, name.utf8ByteSize ≤ maxNameSize) ∧
      (absolute names).utf8ByteSize ≤ maxPathSize ∧ Char.ofNat 0 ∉ (absolute names).toList :=
  ⟨fun h => ⟨h.name_size, h.path_size, h.no_zero⟩, fun h => ⟨h.1, h.2.1, h.2.2⟩⟩

instance (names : List String) : Decidable (Fits names) :=
  decidable_of_iff _ fits_iff.symm

theorem Fits.front {front back : List String} (h : Fits (front ++ back)) : Fits front := by
  by_cases hfront : front = []
  · subst hfront
    refine ⟨by simp, ?_, ?_⟩
    · decide
    · simp [absolute]
  · by_cases hback : back = []
    · rwa [hback, List.append_nil] at h
    · have hpath : absolute (front ++ back) = absolute front ++ "/" ++ unsplit back := by
        rw [absolute, absolute, unsplit_append hfront hback]
        simp [String.append_assoc]
      refine ⟨fun name hname => h.name_size name (List.mem_append_left _ hname), ?_, ?_⟩
      · have hsize := h.path_size
        rw [hpath, String.utf8ByteSize_append, String.utf8ByteSize_append] at hsize
        omega
      · intro hzero
        apply h.no_zero
        rw [hpath]
        simp [hzero]

/-! ### Following names -/

section Follow

variable {root : FileTree} {follow : Bool} {here names rest : List String}

theorem descend_name {part : String} (hpart : IsPlain part)
    (hsize : part.utf8ByteSize ≤ maxNameSize)
    (hfolder : root.kindAt (here ++ [part]) = some .folder) :
    descend root follow here (part :: rest) = descend root follow (here ++ [part]) rest := by
  obtain ⟨es, hes⟩ := FileTree.exists_entries_of_kindAt hfolder
  have hlong : ¬ maxNameSize < part.utf8ByteSize := Nat.not_lt.2 hsize
  simp only [descend, hpart.ne_empty, hpart.ne_dot, hpart.ne_dotDot, hlong, hes, or_self, if_false]

/-- Names that lead through folders lead to where they say. -/
theorem descend_folders (hplain : ∀ name ∈ names, IsPlain name)
    (hsize : ∀ name ∈ names, name.utf8ByteSize ≤ maxNameSize)
    (hfolder : root.kindAt (here ++ names) = some .folder) :
    descend root follow here (names ++ rest) = descend root follow (here ++ names) rest := by
  induction names generalizing here with
  | nil => rw [List.nil_append, List.append_nil]
  | cons part names ih =>
      rw [List.forall_mem_cons] at hplain hsize
      have hassoc : here ++ part :: names = here ++ [part] ++ names := by simp
      rw [hassoc] at hfolder ⊢
      rw [List.cons_append, descend_name hplain.1 hsize.1 (FileTree.kindAt_front hfolder),
        ih hplain.2 hsize.2 hfolder]

theorem descend_last {last : String} (hlast : IsPlain last)
    (hsize : last.utf8ByteSize ≤ maxNameSize)
    (hlink : ∀ target, root.kindAt (here ++ [last]) ≠ some (.link target)) :
    descend root follow here [last] =
      .done (.ok ⟨here ++ [last], root.find? (here ++ [last])⟩) := by
  have hlong : ¬ maxNameSize < last.utf8ByteSize := Nat.not_lt.2 hsize
  simp only [descend, hlast.ne_empty, hlast.ne_dot, hlast.ne_dotDot, hlong, or_self, if_false]
  cases hnode : root.find? (here ++ [last]) with
  | none => rfl
  | some node =>
      cases node with
      | file contents => rfl
      | folder es => simp
      | link target => exact absurd (by simp [FileTree.kindAt, hnode, FileTree.kind]) (hlink target)

/-- One name that is too long is enough. -/
theorem descend_tooLong {front : List String} {last : String}
    (hplain : ∀ name ∈ front ++ [last], IsPlain name)
    (hfolder : root.kindAt (here ++ front) = some .folder)
    (hlong : ∃ name ∈ front ++ [last], maxNameSize < name.utf8ByteSize) :
    descend root follow here (front ++ [last] ++ rest) = .done (.error .nameTooLong) := by
  induction front generalizing here with
  | nil =>
      have hlast : IsPlain last := hplain last (by simp)
      have hsize : maxNameSize < last.utf8ByteSize := by simpa using hlong
      simp [descend, hlast.ne_empty, hlast.ne_dot, hlast.ne_dotDot, hsize]
  | cons part front ih =>
      rw [List.cons_append, List.forall_mem_cons] at hplain
      by_cases hsize : maxNameSize < part.utf8ByteSize
      · simp [descend, hplain.1.ne_empty, hplain.1.ne_dot, hplain.1.ne_dotDot, hsize]
      · have hassoc : here ++ part :: front = here ++ [part] ++ front := by simp
        rw [hassoc] at hfolder
        rw [List.cons_append, List.cons_append,
          descend_name hplain.1 (Nat.not_lt.1 hsize) (FileTree.kindAt_front hfolder)]
        refine ih hplain.2 hfolder ?_
        obtain ⟨name, hname, hlong⟩ := hlong
        rcases List.mem_cons.1 hname with rfl | hname
        · exact absurd hlong hsize
        · exact ⟨name, hname, hlong⟩

theorem followFrom_done {links : Nat} {parts : List String} {result : Except FileError Place}
    (h : descend root follow here parts = .done result) :
    followFrom root follow links here parts = result := by
  cases links with
  | zero => rw [followFrom, h]
  | succ links => rw [followFrom, h]

end Follow

/-! ### Following absolute paths -/

section Locate

variable {fs : FileSystem} {front names : List String} {last : String} {follow : Bool}

theorem descend_split_absolute {root : FileTree} (hplain : ∀ name ∈ names, IsPlain name) :
    descend root follow [] (split (absolute names)) = descend root follow [] names := by
  by_cases hne : names = []
  · simp [hne, split_absolute_nil, descend]
  · simp [split_absolute hne hplain, descend]

theorem locate_of_fits (hplain : ∀ name ∈ names, IsPlain name) (hfits : Fits names)
    {result : Except FileError Place}
    (h : descend fs.root follow [] names = .done result) :
    fs.locate (absolute names) follow = result := by
  have hzero : ¬ (absolute names).toList.contains (Char.ofNat 0) = true := by
    simpa using hfits.no_zero
  have hsize : ¬ maxPathSize < (absolute names).utf8ByteSize := Nat.not_lt.2 hfits.path_size
  rw [locate, if_neg hzero, if_neg (absolute_ne_empty names), if_neg hsize, isAbsolute_absolute,
    if_pos rfl]
  refine followFrom_done ?_
  rw [descend_split_absolute hplain, h]

/-- The path of a folder leads to the folder. -/
theorem locate_folder (hplain : ∀ name ∈ names, IsPlain name) (hfits : Fits names)
    (hfolder : fs.root.kindAt names = some .folder) :
    fs.locate (absolute names) follow = .ok ⟨names, fs.root.find? names⟩ := by
  apply locate_of_fits hplain hfits
  have hdescend := @descend_folders fs.root follow [] names [] hplain hfits.name_size hfolder
  rw [List.append_nil] at hdescend
  rw [hdescend]
  simp [descend]

/-- The path of what may be in a folder leads there, unless it is a link. -/
theorem locate_append (hplain : ∀ name ∈ front ++ [last], IsPlain name)
    (hfits : Fits (front ++ [last])) (hfolder : fs.root.kindAt front = some .folder)
    (hlink : ∀ target, fs.root.kindAt (front ++ [last]) ≠ some (.link target)) :
    fs.locate (absolute (front ++ [last])) follow =
      .ok ⟨front ++ [last], fs.root.find? (front ++ [last])⟩ := by
  apply locate_of_fits hplain hfits
  rw [descend_folders (fun name hname => hplain name (List.mem_append_left _ hname))
    (fun name hname => hfits.name_size name (List.mem_append_left _ hname)) hfolder]
  exact descend_last (hplain last (by simp)) (hfits.name_size last (by simp)) hlink

/-- A path that doesn't fit leads nowhere, with a slash at its end or without. -/
theorem exists_locate_eq_error (hplain : ∀ name ∈ front ++ [last], IsPlain name)
    (hfits : ¬ Fits (front ++ [last])) (hfolder : fs.root.kindAt front = some .folder)
    {ending : String} (hending : ending = "" ∨ ending = "/") :
    ∃ e, fs.locate (absolute (front ++ [last]) ++ ending) follow = .error e ∧ e ≠ .notFound := by
  by_cases hzero : Char.ofNat 0 ∈ (absolute (front ++ [last])).toList
  · refine ⟨.zeroInPath, ?_, by simp⟩
    have hcontains :
        (absolute (front ++ [last]) ++ ending).toList.contains (Char.ofNat 0) = true := by
      rw [List.contains_iff_mem, String.toList_append]
      exact List.mem_append_left _ hzero
    rw [locate, if_pos hcontains]
  · have hcontains : ¬ (absolute (front ++ [last]) ++ ending).toList.contains (Char.ofNat 0) =
        true := by
      rw [List.contains_iff_mem, String.toList_append, List.mem_append, not_or]
      refine ⟨hzero, ?_⟩
      rcases hending with rfl | rfl <;> decide
    have hempty : absolute (front ++ [last]) ++ ending ≠ "" := by
      intro h
      exact absolute_ne_empty _ (String.append_eq_empty_iff.1 h).1
    refine ⟨.nameTooLong, ?_, by simp⟩
    rw [locate, if_neg hcontains, if_neg hempty]
    by_cases hpath : maxPathSize < (absolute (front ++ [last]) ++ ending).utf8ByteSize
    · rw [if_pos hpath]
    · rw [if_neg hpath, isAbsolute_append (absolute_ne_empty _), isAbsolute_absolute, if_pos rfl]
      have hsize := Nat.not_lt.1 hpath
      rw [String.utf8ByteSize_append] at hsize
      have hlong : ∃ name ∈ front ++ [last], maxNameSize < name.utf8ByteSize := by
        by_contra hshort
        refine hfits ⟨fun name hname => ?_, by omega, hzero⟩
        exact Nat.not_lt.1 fun hname' => hshort ⟨name, hname, hname'⟩
      refine followFrom_done ?_
      obtain ⟨rest, hrest⟩ := exists_split_absolute_append (by simp) hplain hending
      rw [hrest]
      have hroot : descend fs.root follow [] ("" :: (front ++ [last] ++ rest)) =
          descend fs.root follow [] (front ++ [last] ++ rest) := by simp [descend]
      rw [hroot, descend_tooLong hplain hfolder hlong]

/-- A path with a slash at its end doesn't lead to a folder if nothing is there. -/
theorem isFolder_append_slash (hplain : ∀ name ∈ front ++ [last], IsPlain name)
    (hfits : ¬ Fits (front ++ [last])) (hfolder : fs.root.kindAt front = some .folder) :
    fs.isFolder (absolute (front ++ [last]) ++ "/") = false := by
  obtain ⟨e, he, _⟩ := exists_locate_eq_error hplain hfits hfolder (.inr rfl)
  rw [isFolder, node, he]
  rfl

end Locate

/-! ### Making folders and files -/

section Make

variable {fs result : FileSystem} {front names : List String} {last : String}

theorem createFolder_eq (path : String) :
    fs.createFolder path =
      match fs.locate (withoutTrailingSlashes path) false with
      | .error e => .error e
      | .ok ⟨place, none⟩ => .ok (fs.put place (.folder []))
      | .ok ⟨_, some _⟩ => .error .alreadyExists := by
  rw [createFolder]
  cases hlocate : fs.locate (withoutTrailingSlashes path) false with
  | error e => rfl
  | ok place =>
      obtain ⟨path, node⟩ := place
      cases node <;> rfl

theorem createFolders_of_made {path : String} (hpath : path ≠ "")
    (h : fs.createFolder path = .ok result) : fs.createFolders path = .ok result := by
  rw [createFolders, createFoldersUp, if_neg hpath, h]

theorem createFolders_of_error {path : String} (hpath : path ≠ "") {e : FileError}
    (he : e ≠ .notFound) (h : fs.createFolder path = .error e) :
    fs.createFolders path = if fs.isFolder path then .ok fs else .error e := by
  rw [createFolders, createFoldersUp, if_neg hpath, h]
  cases e <;> first | rfl | exact absurd rfl he

/-- A folder is made where nothing is, as far as the path fits. -/
theorem createFolders_new (hplain : ∀ name ∈ front ++ [last], IsPlain name)
    (hfolder : fs.root.kindAt front = some .folder)
    (hnone : fs.root.kindAt (front ++ [last]) = none) :
    fs.createFolders (absolute (front ++ [last]) ++ "/") = .ok result ↔
      Fits (front ++ [last]) ∧ result = fs.put (front ++ [last]) (.folder []) := by
  have hpath : absolute (front ++ [last]) ++ "/" ≠ "" := by
    intro h
    exact absolute_ne_empty _ (String.append_eq_empty_iff.1 h).1
  have htrailing := (withoutTrailingSlashes_absolute (by simp) hplain).2
  have hnode : fs.root.find? (front ++ [last]) = none := by
    simpa [FileTree.kindAt] using hnone
  by_cases hfits : Fits (front ++ [last])
  · have hmade : fs.createFolder (absolute (front ++ [last]) ++ "/") =
        .ok (fs.put (front ++ [last]) (.folder [])) := by
      rw [createFolder_eq, htrailing, locate_append hplain hfits hfolder (by simp [hnone]), hnode]
    rw [createFolders_of_made hpath hmade, Except.ok.injEq]
    exact ⟨fun h => ⟨hfits, h.symm⟩, fun h => h.2.symm⟩
  · obtain ⟨e, he, hne⟩ :=
      @exists_locate_eq_error fs front last false hplain hfits hfolder "" (.inl rfl)
    rw [String.append_empty] at he
    -- A failure is forgiven where a folder is, but a path that doesn't fit leads to none.
    have herror : fs.createFolder (absolute (front ++ [last]) ++ "/") = .error e := by
      rw [createFolder_eq, htrailing, he]
    rw [createFolders_of_error hpath hne herror,
      if_neg (by simp [isFolder_append_slash hplain hfits hfolder])]
    simp [hfits]

theorem createFolder_of_some {path : String} {place : Place} {node : FileTree}
    (h : fs.locate (withoutTrailingSlashes path) false = .ok place)
    (hnode : place.node = some node) : fs.createFolder path = .error .alreadyExists := by
  obtain ⟨names, found⟩ := place
  obtain rfl : found = some node := hnode
  rw [createFolder_eq, h]

theorem fits_nil : Fits [] :=
  ⟨by simp, by decide, by decide⟩

theorem isFolder_absolute (hplain : ∀ name ∈ names, IsPlain name) (hfits : Fits names)
    (hfolder : fs.root.kindAt names = some .folder) : fs.isFolder (absolute names) = true := by
  obtain ⟨es, hes⟩ := FileTree.exists_entries_of_kindAt hfolder
  rw [isFolder, node, locate_folder hplain hfits hfolder, hes]
  rfl

theorem withoutTrailingSlashes_of_plain (hplain : ∀ name ∈ names, IsPlain name) :
    withoutTrailingSlashes (absolute names) = absolute names := by
  by_cases hne : names = []
  · rw [hne]
    decide
  · exact (withoutTrailingSlashes_absolute hne hplain).1

/-- Nothing is made where a folder is. -/
theorem createFolders_folder (hplain : ∀ name ∈ names, IsPlain name)
    (hfolder : fs.root.kindAt names = some .folder) (hfits : Fits names) :
    fs.createFolders (absolute names) = .ok fs := by
  obtain ⟨es, hes⟩ := FileTree.exists_entries_of_kindAt hfolder
  have hlocate := @locate_folder fs names false hplain hfits hfolder
  rw [← withoutTrailingSlashes_of_plain hplain] at hlocate
  rw [createFolders_of_error (absolute_ne_empty names) (by simp)
      (createFolder_of_some hlocate hes),
    if_pos (isFolder_absolute hplain hfits hfolder)]

/-- Making a folder that is there changes nothing, even if its path doesn't fit. -/
theorem eq_of_createFolders_folder (hplain : ∀ name ∈ names, IsPlain name)
    (hfolder : fs.root.kindAt names = some .folder)
    (h : fs.createFolders (absolute names) = .ok result) : result = fs := by
  by_cases hfits : Fits names
  · rw [createFolders_folder hplain hfolder hfits] at h
    exact (Except.ok.inj h).symm
  · rcases List.eq_nil_or_concat' names with rfl | ⟨front, last, rfl⟩
    · exact absurd fits_nil hfits
    · obtain ⟨e, he, hne⟩ := @exists_locate_eq_error fs front last false hplain hfits
        (FileTree.kindAt_front hfolder) "" (.inl rfl)
      rw [String.append_empty] at he
      have herror : fs.createFolder (absolute (front ++ [last])) = .error e := by
        rw [createFolder_eq, withoutTrailingSlashes_of_plain hplain, he]
      rw [createFolders_of_error (absolute_ne_empty _) hne herror] at h
      split at h
      · exact (Except.ok.inj h).symm
      · cases h

/-- A file is written where nothing is, as far as the path fits. -/
theorem write_new (hplain : ∀ name ∈ front ++ [last], IsPlain name)
    (hfolder : fs.root.kindAt front = some .folder)
    (hnone : fs.root.kindAt (front ++ [last]) = none) {contents : ByteArray} :
    fs.write (absolute (front ++ [last])) contents = .ok result ↔
      Fits (front ++ [last]) ∧ result = fs.put (front ++ [last]) (.file contents) := by
  have hnode : fs.root.find? (front ++ [last]) = none := by
    simpa [FileTree.kindAt] using hnone
  rw [write]
  by_cases hfits : Fits (front ++ [last])
  · rw [locate_append hplain hfits hfolder (by simp [hnone]), hnode]
    constructor
    · intro h
      exact ⟨hfits, (Except.ok.inj h).symm⟩
    · intro h
      rw [h.2]
      rfl
  · obtain ⟨e, he, _⟩ :=
      @exists_locate_eq_error fs front last true hplain hfits hfolder "" (.inl rfl)
    rw [String.append_empty] at he
    rw [he]
    constructor
    · intro h
      cases h
    · intro h
      exact absurd h.1 hfits

end Make

/-! ### Reading -/

section Read

variable {fs : FileSystem} {front names : List String} {last : String}

theorem list_absolute (hplain : ∀ name ∈ names, IsPlain name) (hfits : Fits names)
    {es : List (String × FileTree)} (hfind : fs.root.find? names = some (.folder es)) :
    fs.list (absolute names) = .ok es := by
  have hfolder : fs.root.kindAt names = some .folder := by
    rw [FileTree.kindAt, hfind]
    rfl
  rw [list, node, locate_folder hplain hfits hfolder, hfind]
  rfl

theorem isFile_absolute (hplain : ∀ name ∈ front ++ [last], IsPlain name)
    (hfits : Fits (front ++ [last])) {contents : ByteArray}
    (hfind : fs.root.find? (front ++ [last]) = some (.file contents)) :
    fs.isFile (absolute (front ++ [last])) = true := by
  have hfolder : fs.root.kindAt front = some .folder :=
    FileTree.kindAt_of_find?_append (by simp) hfind
  have hkind : fs.root.kindAt (front ++ [last]) = some (.file contents) := by
    rw [FileTree.kindAt, hfind]
    rfl
  rw [isFile, node, locate_append hplain hfits hfolder (by simp [hkind]), hfind]
  rfl

/-- However a path is followed, what is found is what lies at the names that it leads to. -/
theorem node_eq_of_descend {root : FileTree} {follow : Bool} {here parts : List String}
    {place : Place} (h : descend root follow here parts = .done (.ok place)) :
    place.node = root.find? place.path := by
  induction parts generalizing here with
  | nil =>
      rw [descend] at h
      cases h
      rfl
  | cons part rest ih =>
      rw [descend] at h
      split at h
      · exact ih h
      · split at h
        · exact ih h
        · split at h
          · cases h
          · simp only at h
            split at h
            · split at h
              · cases h
                rename_i hnone _
                exact hnone.symm
              · cases h
            · exact ih h
            · split at h
              · cases h
                rename_i hfile _
                exact hfile.symm
              · cases h
            · split at h
              · cases h
                rename_i hlink _
                exact hlink.symm
              · cases h

theorem node_eq_of_followFrom {root : FileTree} {follow : Bool} {links : Nat}
    {here parts : List String} {place : Place}
    (h : followFrom root follow links here parts = .ok place) :
    place.node = root.find? place.path := by
  induction links generalizing here parts with
  | zero =>
      rw [followFrom] at h
      split at h
      · rename_i result hdone
        exact node_eq_of_descend (h ▸ hdone)
      · cases h
  | succ links ih =>
      rw [followFrom] at h
      split at h
      · rename_i result hdone
        exact node_eq_of_descend (h ▸ hdone)
      · exact ih h

theorem node_eq_of_locate {path : String} {follow : Bool} {place : Place}
    (h : fs.locate path follow = .ok place) : place.node = fs.root.find? place.path := by
  unfold locate at h
  split at h
  · cases h
  · split at h
    · cases h
    · split at h
      · cases h
      · exact node_eq_of_followFrom h

/-- Only a folder is listed. -/
theorem exists_locate_of_list {path : String} {es : List (String × FileTree)}
    (h : fs.list path = .ok es) :
    ∃ names, fs.locate path true = .ok ⟨names, some (.folder es)⟩ := by
  rw [list, node] at h
  obtain ⟨t, hnode, hentries⟩ := bind_eq_ok_iff.1 h
  obtain ⟨⟨names, found⟩, hlocate, hplace⟩ := bind_eq_ok_iff.1 hnode
  refine ⟨names, hlocate.trans ?_⟩
  cases found with
  | none => cases hplace
  | some t' =>
      obtain rfl := Except.ok.inj hplace
      cases t' with
      | folder es' => rw [Except.ok.inj hentries]
      | file contents => cases hentries
      | link target => cases hentries

/-- What a path leads to is part of the tree. -/
theorem exists_find?_of_node {path : String} {t : FileTree} (h : fs.node path = .ok t) :
    ∃ names, fs.root.find? names = some t := by
  rw [node] at h
  obtain ⟨⟨names, found⟩, hlocate, hplace⟩ := bind_eq_ok_iff.1 h
  cases found with
  | none => cases hplace
  | some t' =>
      obtain rfl := Except.ok.inj hplace
      exact ⟨names, (node_eq_of_locate hlocate).symm⟩

/-- A folder that is listed is part of the tree. -/
theorem exists_find?_of_list {path : String} {es : List (String × FileTree)}
    (h : fs.list path = .ok es) : ∃ names, fs.root.find? names = some (.folder es) := by
  obtain ⟨names, hlocate⟩ := exists_locate_of_list h
  exact ⟨names, (node_eq_of_locate hlocate).symm⟩

/-- Wherever a path leads, a file or a link is all that is removed there. -/
theorem exists_of_removeFile {path : String} {result : FileSystem}
    (h : fs.removeFile path = .ok result) :
    ∃ names kind, fs.root.kindAt names = some kind ∧ kind ≠ .folder ∧ result = fs.remove names := by
  rw [removeFile] at h
  obtain ⟨place, hlocate, hremoved⟩ := bind_eq_ok_iff.1 h
  have hnode := node_eq_of_locate hlocate
  cases hsome : place.node with
  | none =>
      rw [hsome] at hremoved
      cases hremoved
  | some found =>
      rw [hsome] at hnode hremoved
      refine ⟨place.path, found.kind, by rw [FileTree.kindAt, ← hnode]; rfl, ?_, ?_⟩
      · rintro hfolder
        cases found with
        | folder es => cases hremoved
        | file contents => cases hfolder
        | link target => cases hfolder
      · cases found with
        | folder es => cases hremoved
        | file contents => exact (Except.ok.inj hremoved).symm
        | link target => exact (Except.ok.inj hremoved).symm

end Read

end FileSystem

end InfraGraph
