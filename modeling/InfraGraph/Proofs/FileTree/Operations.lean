import InfraGraph.Proofs.FileTree.System

/-!
# Operations on files and folders

What every operation does at an absolute path of names is said by what is there before: a file, a
folder, or nothing in a folder that is there or isn't.  Taking something away empties its path and
all paths below, and making folders only adds those on the way.
-/

namespace InfraGraph

/-! ### Taking things away -/

namespace FileTree

theorem kindAt_folder_cons (es : List (String × FileTree)) (name : String) (rest : List String) :
    kindAt (.folder es) (name :: rest) = (Entries.find? name es).bind (·.kindAt rest) := by
  rw [kindAt, find?_folder_cons]
  cases Entries.find? name es <;> rfl

@[simp] theorem erase_file (path : List String) (contents : ByteArray) :
    erase path (.file contents) = .file contents := by
  match path with
  | [] => rfl
  | [_] => rfl
  | _ :: _ :: _ => rfl

@[simp] theorem erase_link (path : List String) (target : String) :
    erase path (.link target) = .link target := by
  match path with
  | [] => rfl
  | [_] => rfl
  | _ :: _ :: _ => rfl

/-- Inside a folder, taking something away changes what one name stands for. -/
theorem exists_erase_folder (name : String) (rest : List String) (es : List (String × FileTree)) :
    ∃ es', erase (name :: rest) (.folder es) = .folder es' ∧ ∀ n, Entries.find? n es' =
      if n = name then
        if rest = [] then none else (Entries.find? name es).map (erase rest)
      else Entries.find? n es := by
  cases rest with
  | nil => exact ⟨Entries.erase name es, rfl, fun n => by simp [Entries.find?_erase]⟩
  | cons next rest =>
      rw [erase]
      · cases hchild : Entries.find? name es with
        | none => exact ⟨es, rfl, fun n => by split <;> simp_all⟩
        | some child =>
            refine ⟨_, rfl, fun n => ?_⟩
            rw [Entries.find?_insert]
            by_cases hn : n = name
            · simp [hn]
            · simp [hn, Ne.symm hn]
      · intro h
        cases h

/-- Nothing is left at a path that is taken away, and below it. -/
theorem kindAt_erase {path : List String} (hne : path ≠ []) (t : FileTree) (other : List String) :
    (erase path t).kindAt other = if path <+: other then none else t.kindAt other := by
  induction path generalizing t other with
  | nil => exact absurd rfl hne
  | cons name rest ih =>
      cases other with
      | nil =>
          rw [if_neg (by simp)]
          cases t with
          | file contents => rw [erase_file]
          | link target => rw [erase_link]
          | folder es =>
              obtain ⟨es', hes', _⟩ := exists_erase_folder name rest es
              rw [hes']
              rfl
      | cons first other =>
          cases t with
          | file contents => rw [erase_file]; split <;> rfl
          | link target => rw [erase_link]; split <;> rfl
          | folder es =>
              obtain ⟨es', hes', hfind⟩ := exists_erase_folder name rest es
              simp only [hes', kindAt_folder_cons, hfind, List.cons_prefix_cons]
              by_cases hfirst : first = name
              · subst hfirst
                by_cases hrest : rest = []
                · simp [hrest]
                · cases hchild : Entries.find? first es with
                  | none => simp [hrest]
                  | some child => simp [hrest, ih hrest child other]
              · simp [hfirst, Ne.symm hfirst]

theorem WellFormed.erase {t : FileTree} (h : t.WellFormed) (path : List String) :
    (FileTree.erase path t).WellFormed := by
  induction path generalizing t with
  | nil => rwa [FileTree.erase]
  | cons name rest ih =>
      cases t with
      | file contents => rwa [erase_file]
      | link target => rwa [erase_link]
      | folder es =>
          obtain ⟨hascending, hall⟩ := wellFormed_folder_iff.1 h
          cases rest with
          | nil =>
              exact wellFormed_folder_iff.2
                ⟨hascending.filter, fun entry hentry => hall entry (List.mem_of_mem_filter hentry)⟩
          | cons next rest =>
              rw [FileTree.erase]
              · cases hchild : Entries.find? name es with
                | none => exact h
                | some child =>
                    refine wellFormed_folder_iff.2 ⟨hascending.insert, fun entry hentry => ?_⟩
                    rcases Entries.mem_insert hentry with rfl | hentry
                    · exact ih (hall _ (Entries.mem_of_find? hchild))
                    · exact hall entry hentry
              · intro h
                cases h

end FileTree

/-! ### Where paths lead -/

namespace FileSystem

open InfraGraph.Path

section Locate

variable {fs : FileSystem} {names front rest : List String} {name last : String} {follow : Bool}

/-- What is at a path is found there, unless it is a link. -/
theorem locate_of_kindAt (hplain : ∀ name ∈ names, IsPlain name) (hfits : Fits names)
    {kind : FileTree.Kind} (hkind : fs.root.kindAt names = some kind)
    (hlink : ∀ target, kind ≠ .link target) :
    fs.locate (absolute names) follow = .ok ⟨names, fs.root.find? names⟩ := by
  rcases List.eq_nil_or_concat' names with rfl | ⟨front, last, rfl⟩
  · exact locate_of_fits hplain hfits (by rw [descend])
  · rw [FileTree.kindAt, Option.map_eq_some_iff] at hkind
    obtain ⟨node, hnode, rfl⟩ := hkind
    refine locate_append hplain hfits (FileTree.kindAt_of_find?_append (by simp) hnode) ?_
    intro target htarget
    rw [FileTree.kindAt, hnode] at htarget
    exact hlink target (Option.some.inj htarget)

/-- The path leads into a folder that is there, but from there on there is nothing. -/
structure IsMissing (fs : FileSystem) (front : List String) (name : String) : Prop where
  folder : fs.root.kindAt front = some .folder
  none : fs.root.kindAt (front ++ [name]) = none

theorem locate_of_isMissing (hplain : ∀ part ∈ front ++ name :: rest, IsPlain part)
    (hfits : Fits (front ++ name :: rest)) (h : fs.IsMissing front name) :
    fs.locate (absolute (front ++ name :: rest)) follow =
      if rest = [] then .ok ⟨front ++ [name], none⟩ else .error .notFound := by
  have hname : IsPlain name := hplain name (by simp)
  have hsize : ¬ maxNameSize < name.utf8ByteSize := Nat.not_lt.2 (hfits.name_size name (by simp))
  have hnode : fs.root.find? (front ++ [name]) = none := by
    simpa [FileTree.kindAt] using h.none
  apply locate_of_fits hplain hfits
  rw [descend_folders (fun part hpart => hplain part (List.mem_append_left _ hpart))
    (fun part hpart => hfits.name_size part (List.mem_append_left _ hpart)) h.folder]
  simp only [descend, hname.ne_empty, hname.ne_dot, hname.ne_dotDot, hsize, hnode, or_self,
    if_false, List.nil_append]
  split <;> rfl

end Locate

/-! ### Reading and asking -/

section Read

variable {fs : FileSystem} {names front rest : List String} {name : String}
  {contents : ByteArray}

theorem exists_find?_of_kindAt_file (h : fs.root.kindAt names = some (.file contents)) :
    fs.root.find? names = some (.file contents) := by
  rw [FileTree.kindAt, Option.map_eq_some_iff] at h
  obtain ⟨node, hnode, hkind⟩ := h
  cases node with
  | file contents' =>
      obtain rfl := FileTree.Kind.file.inj hkind
      exact hnode
  | link target => cases hkind
  | folder es => cases hkind

theorem node_file (hplain : ∀ name ∈ names, IsPlain name) (hfits : Fits names)
    (h : fs.root.kindAt names = some (.file contents)) :
    fs.node (absolute names) = .ok (.file contents) := by
  rw [node, locate_of_kindAt hplain hfits h (by simp), exists_find?_of_kindAt_file h]
  rfl

theorem node_missing (hplain : ∀ part ∈ front ++ name :: rest, IsPlain part)
    (hfits : Fits (front ++ name :: rest)) (h : fs.IsMissing front name) :
    fs.node (absolute (front ++ name :: rest)) = .error .notFound := by
  rw [node, locate_of_isMissing hplain hfits h]
  split <;> rfl

theorem read_file (hplain : ∀ name ∈ names, IsPlain name) (hfits : Fits names)
    (h : fs.root.kindAt names = some (.file contents)) :
    fs.read (absolute names) = .ok contents := by
  rw [read, node_file hplain hfits h]
  rfl

theorem read_missing (hplain : ∀ part ∈ front ++ name :: rest, IsPlain part)
    (hfits : Fits (front ++ name :: rest)) (h : fs.IsMissing front name) :
    fs.read (absolute (front ++ name :: rest)) = .error .notFound := by
  rw [read, node_missing hplain hfits h]
  rfl

theorem exists?_file (hplain : ∀ name ∈ names, IsPlain name) (hfits : Fits names)
    (h : fs.root.kindAt names = some (.file contents)) :
    fs.exists? (absolute names) = .ok true := by
  rw [exists?, node_file hplain hfits h]

theorem exists?_missing (hplain : ∀ part ∈ front ++ name :: rest, IsPlain part)
    (hfits : Fits (front ++ name :: rest)) (h : fs.IsMissing front name) :
    fs.exists? (absolute (front ++ name :: rest)) = .ok false := by
  rw [exists?, node_missing hplain hfits h]

end Read

/-! ### Removing and moving -/

section Remove

variable {fs : FileSystem} {names front rest : List String} {name : String}
  {contents : ByteArray}

theorem removeFile_file (hplain : ∀ name ∈ names, IsPlain name) (hfits : Fits names)
    (h : fs.root.kindAt names = some (.file contents)) :
    fs.removeFile (absolute names) = .ok (fs.remove names) := by
  rw [removeFile, locate_of_kindAt hplain hfits h (by simp), exists_find?_of_kindAt_file h]
  rfl

theorem removeFile_missing (hplain : ∀ part ∈ front ++ name :: rest, IsPlain part)
    (hfits : Fits (front ++ name :: rest)) (h : fs.IsMissing front name) :
    fs.removeFile (absolute (front ++ name :: rest)) = .error .notFound := by
  rw [removeFile, locate_of_isMissing hplain hfits h]
  split <;> rfl

theorem removeFolders_folder (hplain : ∀ name ∈ names, IsPlain name) (hfits : Fits names)
    (h : fs.root.kindAt names = some .folder) :
    fs.removeFolders (absolute names) = .ok (fs.remove names) := by
  obtain ⟨es, hes⟩ := FileTree.exists_entries_of_kindAt h
  rw [removeFolders, locate_of_kindAt hplain hfits h (by simp), hes]
  rfl

/-- A file is moved to where nothing is. -/
theorem move_new {target : List String} {last : String}
    (hplain : ∀ name ∈ names, IsPlain name) (hfits : Fits names)
    (h : fs.root.kindAt names = some (.file contents))
    (hplain' : ∀ name ∈ target ++ [last], IsPlain name) (hfits' : Fits (target ++ [last]))
    (hmissing : fs.IsMissing target last) :
    fs.move (absolute names) (absolute (target ++ [last])) =
      .ok ((fs.remove names).put (target ++ [last]) (.file contents)) := by
  rw [move, locate_of_kindAt hplain hfits h (by simp), exists_find?_of_kindAt_file h,
    locate_of_isMissing hplain' hfits' hmissing, if_pos rfl]
  rfl

end Remove

/-! ### Making folders -/

section Folders

variable {fs : FileSystem} {names : List String}

theorem not_prefix_of_concat {last : String} : ¬ names ++ [last] <+: names := by
  intro h
  have hlength := h.length_le
  rw [List.length_append, List.length_singleton] at hlength
  omega

/-- Nothing but folders is on the way to a path and at its end. -/
def IsFree (fs : FileSystem) (names : List String) : Prop :=
  ∀ front, front <+: names → fs.root.kindAt front = none ∨ fs.root.kindAt front = some .folder

theorem IsFree.front {front back : List String} (h : fs.IsFree (front ++ back)) :
    fs.IsFree front :=
  fun other hother => h other (hother.trans (List.prefix_append _ _))

/-- A free path leads to a folder, or from some folder on it there is nothing. -/
theorem IsFree.folder_or_isMissing (hroot : fs.root.kindAt [] = some .folder)
    (h : fs.IsFree names) :
    fs.root.kindAt names = some .folder ∨
      ∃ front name rest, names = front ++ name :: rest ∧ fs.IsMissing front name := by
  induction names using List.reverseRecOn with
  | nil => exact .inl hroot
  | append_singleton front last ih =>
      rcases ih h.front with hfolder | ⟨front, name, rest, rfl, hmissing⟩
      · rcases h _ List.prefix_rfl with hnone | hfolder'
        · exact .inr ⟨front, last, [], rfl, hfolder, hnone⟩
        · exact .inl hfolder'
      · exact .inr ⟨front, name, rest ++ [last], by simp, hmissing⟩

/-- Folders were made along a path, and nothing else changed. -/
structure AddsFolders (fs : FileSystem) (names : List String) (result : FileSystem) : Prop where
  wellFormed : result.root.WellFormed
  kindAt : ∀ path, result.root.kindAt path =
    if path <+: names then some .folder else fs.root.kindAt path

theorem addsFolders_self (hwell : fs.root.WellFormed)
    (hfolder : fs.root.kindAt names = some .folder) : fs.AddsFolders names fs := by
  refine ⟨hwell, fun path => ?_⟩
  split
  · rename_i hpath
    obtain ⟨back, rfl⟩ := hpath
    exact FileTree.kindAt_front hfolder
  · rfl

theorem AddsFolders.put {above : FileSystem} {front : List String} {last : String}
    (h : fs.AddsFolders front above) (hmissing : above.IsMissing front last) :
    fs.AddsFolders (front ++ [last]) (above.put (front ++ [last]) (.folder [])) := by
  have hempty : (FileTree.folder []).WellFormed :=
    FileTree.wellFormed_folder_iff.2 ⟨List.Pairwise.nil, by simp⟩
  refine ⟨FileTree.WellFormed.insert hempty h.wellFormed _, fun path => ?_⟩
  have hput : (above.put (front ++ [last]) (.folder [])).root.kindAt path =
      if path = front ++ [last] then some .folder else above.root.kindAt path :=
    FileTree.kindAt_insert FileTree.isLeaf_empty hmissing.folder hmissing.none path
  simp only [hput, h.kindAt, List.prefix_concat_iff]
  by_cases hlast : path = front ++ [last]
  · simp [hlast]
  · simp [hlast]

theorem createFolder_missing {front rest : List String} {name : String}
    (hplain : ∀ part ∈ front ++ name :: rest, IsPlain part)
    (hfits : Fits (front ++ name :: rest)) (h : fs.IsMissing front name) :
    fs.createFolder (absolute (front ++ name :: rest)) =
      if rest = [] then .ok (fs.put (front ++ [name]) (.folder [])) else .error .notFound := by
  rw [createFolder_eq, withoutTrailingSlashes_of_plain hplain, locate_of_isMissing hplain hfits h]
  by_cases hrest : rest = []
  · rw [if_pos hrest, if_pos hrest]
  · rw [if_neg hrest, if_neg hrest]

theorem createFolder_folder (hplain : ∀ name ∈ names, IsPlain name) (hfits : Fits names)
    (hfolder : fs.root.kindAt names = some .folder) :
    fs.createFolder (absolute names) = .error .alreadyExists := by
  obtain ⟨es, hes⟩ := FileTree.exists_entries_of_kindAt hfolder
  have hlocate := @locate_folder fs names false hplain hfits hfolder
  rw [← withoutTrailingSlashes_of_plain hplain] at hlocate
  exact createFolder_of_some hlocate hes

/-- Folders are made along a free path, from the first one that isn't there. -/
theorem exists_createFoldersUp (hwell : fs.root.WellFormed)
    (hroot : fs.root.kindAt [] = some .folder) (hplain : ∀ name ∈ names, IsPlain name)
    (hfits : Fits names) (hfree : fs.IsFree names) {levels : Nat}
    (hlevels : names.length ≤ levels) :
    ∃ result, createFoldersUp levels fs (absolute names) = .ok result ∧
      fs.AddsFolders names result := by
  induction names using List.reverseRecOn generalizing levels with
  | nil =>
      refine ⟨fs, ?_, addsFolders_self hwell hroot⟩
      cases levels with
      | zero => rfl
      | succ levels =>
          rw [createFoldersUp, if_neg (absolute_ne_empty _),
            createFolder_folder hplain hfits hroot]
          simp only [isFolder_absolute hplain hfits hroot, if_true]
  | append_singleton front last ih =>
      rw [List.length_append, List.length_singleton] at hlevels
      obtain ⟨levels, rfl⟩ : ∃ n, levels = n + 1 := ⟨levels - 1, by omega⟩
      rw [createFoldersUp, if_neg (absolute_ne_empty _)]
      rcases hfree.folder_or_isMissing hroot with hfolder | ⟨above, name, rest, hsplit, hmissing⟩
      · refine ⟨fs, ?_, addsFolders_self hwell hfolder⟩
        rw [createFolder_folder hplain hfits hfolder]
        simp only [isFolder_absolute hplain hfits hfolder, if_true]
      · have hmake : fs.createFolder (absolute (front ++ [last])) =
            if rest = [] then .ok (fs.put (above ++ [name]) (.folder []))
            else .error .notFound := by
          rw [hsplit] at hplain hfits ⊢
          exact createFolder_missing hplain hfits hmissing
        rcases List.eq_nil_or_concat' rest with rfl | ⟨rest, last', rfl⟩
        · rw [hmake, if_pos rfl, hsplit]
          exact ⟨_, rfl, (addsFolders_self hwell hmissing.folder).put hmissing⟩
        · rw [hmake, if_neg (by simp), parent?_absolute hplain]
          have hfront : ∀ name ∈ front, IsPlain name := fun name hname =>
            hplain name (List.mem_append_left _ hname)
          obtain ⟨made, hmade, hadds⟩ := ih hfront hfits.front hfree.front
            (show front.length ≤ levels by omega)
          -- With the folders above there, the last one can be made.
          have hlast : made.IsMissing front last := by
            refine ⟨by simp [hadds.kindAt], ?_⟩
            rw [hadds.kindAt, if_neg not_prefix_of_concat]
            refine (hfree _ List.prefix_rfl).resolve_right fun hfolder => ?_
            rw [hsplit, List.append_cons] at hfolder
            have hnone := hmissing.none
            rw [FileTree.kindAt_front hfolder] at hnone
            cases hnone
          have honce := @createFolder_missing made front [] last hplain hfits hlast
          exact ⟨_, by simp only [hmade, createFolderOnce, honce, if_true], hadds.put hlast⟩

theorem length_lt_length_absolute (hplain : ∀ name ∈ names, IsPlain name) :
    names.length < (absolute names).length := by
  induction names using List.reverseRecOn with
  | nil => decide
  | append_singleton front last ih =>
      have hlast : last.length ≠ 0 := fun h =>
        (hplain last (by simp)).ne_empty (String.length_eq_zero_iff.1 h)
      have hfront := ih fun name hname => hplain name (List.mem_append_left _ hname)
      by_cases hnil : front = []
      · subst hnil
        simp only [absolute, List.nil_append, unsplit_singleton, String.length_append,
          List.length_singleton]
        have hslash : ("/" : String).length = 1 := by decide
        omega
      · simp only [absolute, unsplit_concat hnil, String.length_append, List.length_append,
          List.length_singleton] at hfront ⊢
        omega

/-- Folders are made along every free path, whatever of it is there already. -/
theorem exists_createFolders (hwell : fs.root.WellFormed)
    (hroot : fs.root.kindAt [] = some .folder) (hplain : ∀ name ∈ names, IsPlain name)
    (hfits : Fits names) (hfree : fs.IsFree names) :
    ∃ result, fs.createFolders (absolute names) = .ok result ∧ fs.AddsFolders names result :=
  exists_createFoldersUp hwell hroot hplain hfits hfree
    (Nat.le_succ_of_le (Nat.le_of_lt (length_lt_length_absolute hplain)))

end Folders

/-! ### Emptying folders -/

section Empty

variable {fs : FileSystem} {front : List String} {name : String}

/-- A folder was emptied, and nothing else changed. -/
structure Empties (fs : FileSystem) (names : List String) (result : FileSystem) : Prop where
  wellFormed : result.root.WellFormed
  kindAt : ∀ path, result.root.kindAt path =
    if path <+: names then some .folder
    else if names <+: path then none
    else fs.root.kindAt path

theorem exists_empty (hwell : fs.root.WellFormed) (hplain : ∀ part ∈ front ++ [name], IsPlain part)
    (hfits : Fits (front ++ [name])) (hfolder : fs.root.kindAt (front ++ [name]) = some .folder) :
    ∃ result, fs.removeFolders (absolute (front ++ [name])) = .ok (fs.remove (front ++ [name])) ∧
      (fs.remove (front ++ [name])).createFolders (absolute (front ++ [name])) = .ok result ∧
      fs.Empties (front ++ [name]) result := by
  have hremoved : ∀ path, (fs.remove (front ++ [name])).root.kindAt path =
      if front ++ [name] <+: path then none else fs.root.kindAt path :=
    FileTree.kindAt_erase (by simp) _
  have habove : ∀ above, above <+: front →
      (fs.remove (front ++ [name])).root.kindAt above = some .folder := by
    rintro above ⟨back, rfl⟩
    have hlonger : ¬ above ++ back ++ [name] <+: above := fun hstart =>
      not_prefix_of_concat (hstart.trans (List.prefix_append above back))
    rw [hremoved, if_neg hlonger]
    rw [List.append_assoc] at hfolder
    exact FileTree.kindAt_front hfolder
  have hfree : (fs.remove (front ++ [name])).IsFree (front ++ [name]) := by
    intro path hpath
    rcases List.prefix_concat_iff.1 hpath with rfl | hpath
    · exact .inl (by rw [hremoved, if_pos List.prefix_rfl])
    · exact .inr (habove path hpath)
  obtain ⟨result, hcreate, hadds⟩ := exists_createFolders (hwell.erase _)
    (habove [] List.nil_prefix) hplain hfits hfree
  refine ⟨result, removeFolders_folder hplain hfits hfolder, hcreate, hadds.wellFormed,
    fun path => ?_⟩
  rw [hadds.kindAt, hremoved]

end Empty

/-! ### Writing by way of another place -/

section Staging

variable {fs : FileSystem} {stage front : List String} {temporary last : String}

/-- A file that was written somewhere else first and then moved into place, with the folders above
it. -/
structure AddsFile (fs : FileSystem) (staged front : List String) (last : String)
    (contents : ByteArray) (result : FileSystem) : Prop where
  wellFormed : result.root.WellFormed
  kindAt : ∀ path, result.root.kindAt path =
    if path = front ++ [last] then some (.file contents)
    else if staged <+: path then none
    else if path <+: front then some .folder
    else fs.root.kindAt path

/-- A file can be written to where nothing is by way of another place where nothing is. -/
theorem exists_stage (hwell : fs.root.WellFormed) (hroot : fs.root.kindAt [] = some .folder)
    (hplain : ∀ name ∈ stage ++ [temporary], IsPlain name) (hfits : Fits (stage ++ [temporary]))
    (hstage : fs.IsMissing stage temporary)
    (hplain' : ∀ name ∈ front ++ [last], IsPlain name) (hfits' : Fits (front ++ [last]))
    (hfree : fs.IsFree (front ++ [last])) (hnone : fs.root.kindAt (front ++ [last]) = none)
    (hapart : ¬ stage ++ [temporary] <+: front ++ [last]) (contents : ByteArray) :
    ∃ written above result,
      fs.write (absolute (stage ++ [temporary])) contents = .ok written ∧
      written.createFolders (absolute front) = .ok above ∧
      above.move (absolute (stage ++ [temporary])) (absolute (front ++ [last])) = .ok result ∧
      fs.AddsFile (stage ++ [temporary]) front last contents result := by
  have hfile : (FileTree.file contents).WellFormed := trivial
  have hfront : ¬ stage ++ [temporary] <+: front := fun h =>
    hapart (h.trans (List.prefix_append _ _))
  obtain ⟨written, hwrite⟩ : ∃ written, written = fs.put (stage ++ [temporary]) (.file contents) :=
    ⟨_, rfl⟩
  have hwritten : ∀ path, written.root.kindAt path =
      if path = stage ++ [temporary] then some (.file contents) else fs.root.kindAt path := by
    rw [hwrite]
    exact FileTree.kindAt_insert (FileTree.isLeaf_file contents) hstage.folder hstage.none
  have hwrittenFront : ∀ path, path <+: front →
      written.root.kindAt path = fs.root.kindAt path := by
    intro path hpath
    have hne : path ≠ stage ++ [temporary] := fun h => hfront (h ▸ hpath)
    rw [hwritten, if_neg hne]
  obtain ⟨above, habove, hadds⟩ := exists_createFolders
    (hwrite ▸ FileTree.WellFormed.insert hfile hwell _)
    ((hwrittenFront [] (List.nil_prefix)).trans hroot)
    (fun name hname => hplain' name (List.mem_append_left _ hname)) hfits'.front
    (fun path hpath => hwrittenFront path hpath ▸ hfree.front path hpath)
  have hmissing : above.IsMissing front last := by
    have hne : front ++ [last] ≠ stage ++ [temporary] := fun h => hapart (h ▸ List.prefix_rfl)
    refine ⟨by rw [hadds.kindAt, if_pos List.prefix_rfl], ?_⟩
    rw [hadds.kindAt, if_neg not_prefix_of_concat, hwritten, if_neg hne, hnone]
  have hstaged : above.root.kindAt (stage ++ [temporary]) = some (.file contents) := by
    rw [hadds.kindAt, if_neg hfront, hwritten, if_pos rfl]
  refine ⟨written, above, _, (write_new hplain hstage.folder hstage.none).2 ⟨hfits, hwrite⟩,
    habove, move_new hplain hfits hstaged hplain' hfits' hmissing,
    FileTree.WellFormed.insert hfile (hadds.wellFormed.erase _) _, fun path => ?_⟩
  -- What was staged is taken away before the file is put in its place.
  have herased : ∀ path, (above.remove (stage ++ [temporary])).root.kindAt path =
      if stage ++ [temporary] <+: path then none else above.root.kindAt path :=
    FileTree.kindAt_erase (by simp) _
  have hput := FileTree.kindAt_insert (FileTree.isLeaf_file contents)
    (by rw [herased, if_neg hfront, hmissing.folder])
    (by rw [herased, if_neg hapart, hmissing.none]) path
  refine hput.trans ?_
  rw [herased, hadds.kindAt, hwritten]
  split
  · rfl
  · split
    · rfl
    · rename_i hstaged
      have hne : path ≠ stage ++ [temporary] := fun h => hstaged (h ▸ List.prefix_rfl)
      rw [if_neg hne]

end Staging

end FileSystem

end InfraGraph
