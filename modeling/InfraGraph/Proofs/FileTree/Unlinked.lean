import InfraGraph.Proofs.FileTree.Operations

/-!
# Paths without links

Where no link is on the way, a path leads to its own names or nowhere.  There are three cases: there
is something at its end, it leads from some folder on into nothing, or it leads on from a file.  They
tell what every operation answers, the failures included.
-/

namespace InfraGraph

/-- Below nothing there is nothing. -/
theorem FileTree.kindAt_append_of_none {t : FileTree} {front : List String}
    (h : t.kindAt front = none) (back : List String) : t.kindAt (front ++ back) = none := by
  rw [kindAt, Option.map_eq_none_iff] at h ⊢
  rw [find?_append, h]
  rfl

namespace FileSystem

open InfraGraph.Path

/-- No link is on the way to a path or at its end. -/
def IsUnlinked (fs : FileSystem) (names : List String) : Prop :=
  ∀ front, front <+: names → ∀ target, fs.root.kindAt front ≠ some (.link target)

/-! ### Following -/

section Follow

variable {root : FileTree} {follow : Bool} {here parts : List String}

/-- Everything but a folder or a link ends a path. -/
theorem descend_end {part : String} {rest : List String} (hpart : IsPlain part)
    (hsize : part.utf8ByteSize ≤ maxNameSize)
    (hfolder : root.kindAt (here ++ [part]) ≠ some .folder)
    (hlink : ∀ target, root.kindAt (here ++ [part]) ≠ some (.link target)) :
    ∃ e, descend root follow here (part :: rest) =
      .done (if rest = [] then .ok ⟨here ++ [part], root.find? (here ++ [part])⟩ else .error e) := by
  have hlong : ¬ maxNameSize < part.utf8ByteSize := Nat.not_lt.2 hsize
  simp only [descend, hpart.ne_empty, hpart.ne_dot, hpart.ne_dotDot, hlong, or_self, if_false]
  cases hnode : root.find? (here ++ [part]) with
  | none => exact ⟨.notFound, (apply_ite Descent.done _ _ _).symm⟩
  | some node =>
      cases node with
      | file contents => exact ⟨.notADirectory, (apply_ite Descent.done _ _ _).symm⟩
      | folder es => exact absurd (by rw [FileTree.kindAt, hnode]; rfl) hfolder
      | link target => exact absurd (by rw [FileTree.kindAt, hnode]; rfl) (hlink target)

/-- What is found without links is found at the names of the path, and these aren't too long. -/
theorem exists_descend_eq_done (hplain : ∀ part ∈ parts, IsPlain part)
    (hlink : ∀ front, front <+: parts → ∀ target,
      root.kindAt (here ++ front) ≠ some (.link target)) :
    ∃ result, descend root follow here parts = .done result ∧ ∀ place, result = .ok place →
      place = ⟨here ++ parts, root.find? (here ++ parts)⟩ ∧
        ∀ part ∈ parts, part.utf8ByteSize ≤ maxNameSize := by
  induction parts generalizing here with
  | nil =>
      refine ⟨.ok ⟨here, root.find? here⟩, by rw [descend], fun place hplace => ?_⟩
      obtain rfl := Except.ok.inj hplace
      simp
  | cons part rest ih =>
      rw [List.forall_mem_cons] at hplain
      have hpart := hplain.1
      have hsplit : here ++ part :: rest = here ++ [part] ++ rest := by simp
      have hfirst := hlink [part] (List.cons_prefix_cons.2 ⟨rfl, List.nil_prefix⟩)
      by_cases hlong : maxNameSize < part.utf8ByteSize
      · refine ⟨.error .nameTooLong, ?_, fun _ hok => ?_⟩
        · simp only [descend, hpart.ne_empty, hpart.ne_dot, hpart.ne_dotDot, hlong, or_self,
            if_true, if_false]
        · cases hok
      · have hsize := Nat.not_lt.1 hlong
        by_cases hfolder : root.kindAt (here ++ [part]) = some .folder
        · have hrest : ∀ front, front <+: rest → ∀ target,
              root.kindAt (here ++ [part] ++ front) ≠ some (.link target) := by
            intro front hfront target
            rw [List.append_assoc]
            exact hlink (part :: front) (List.cons_prefix_cons.2 ⟨rfl, hfront⟩) target
          obtain ⟨result, hresult, hplace⟩ := ih hplain.2 hrest
          refine ⟨result, (descend_name hpart hsize hfolder).trans hresult, fun place hok => ?_⟩
          rw [hsplit, List.forall_mem_cons]
          exact ⟨(hplace place hok).1, hsize, (hplace place hok).2⟩
        · obtain ⟨e, he⟩ := @descend_end root follow here part rest hpart hsize hfolder hfirst
          refine ⟨_, he, fun place hok => ?_⟩
          by_cases hrest : rest = []
          · subst hrest
            rw [if_pos rfl] at hok
            obtain rfl := Except.ok.inj hok
            exact ⟨rfl, by simpa using hsize⟩
          · rw [if_neg hrest] at hok
            cases hok

end Follow

section Locate

variable {fs : FileSystem} {names above rest : List String} {follow : Bool}

theorem IsUnlinked.front {front back : List String} (h : fs.IsUnlinked (front ++ back)) :
    fs.IsUnlinked front :=
  fun other hother => h other (hother.trans (List.prefix_append front back))

/-- A path that leads somewhere fits, and it leads to its own names. -/
theorem IsUnlinked.eq_of_locate (h : fs.IsUnlinked names) (hplain : ∀ name ∈ names, IsPlain name)
    {place : Place} (hlocate : fs.locate (absolute names) follow = .ok place) :
    Fits names ∧ place = ⟨names, fs.root.find? names⟩ := by
  obtain ⟨result, hdescend, hresult⟩ :=
    @exists_descend_eq_done fs.root follow [] names hplain h
  rw [locate] at hlocate
  split at hlocate
  · cases hlocate
  · rename_i hzero
    split at hlocate
    · cases hlocate
    · split at hlocate
      · cases hlocate
      · rename_i hsize
        rw [isAbsolute_absolute, if_pos rfl,
          followFrom_done ((descend_split_absolute hplain).trans hdescend)] at hlocate
        obtain ⟨hplace, hnames⟩ := hresult place hlocate
        exact ⟨⟨hnames, Nat.not_lt.1 hsize, by simpa using hzero⟩, hplace⟩

/-- A path that leads on from a file leads nowhere. -/
theorem locate_of_file_above (hplain : ∀ name ∈ above ++ rest, IsPlain name)
    (hfits : Fits (above ++ rest)) (hroot : fs.root.kindAt [] = some .folder) (hrest : rest ≠ [])
    {contents : ByteArray} (hfile : fs.root.kindAt above = some (.file contents)) :
    fs.locate (absolute (above ++ rest)) follow = .error .notADirectory := by
  have hne : above ≠ [] := by
    rintro rfl
    rw [hroot] at hfile
    cases hfile
  obtain ⟨front, name, rfl⟩ := (List.eq_nil_or_concat' above).resolve_left hne
  have hnode := exists_find?_of_kindAt_file hfile
  have hname : IsPlain name := hplain name (by simp)
  have hlong : ¬ maxNameSize < name.utf8ByteSize := Nat.not_lt.2 (hfits.name_size name (by simp))
  have hsplit : front ++ [name] ++ rest = front ++ name :: rest := by simp
  refine locate_of_fits hplain hfits ?_
  rw [hsplit] at hplain hfits ⊢
  rw [descend_folders (fun part hpart => hplain part (List.mem_append_left _ hpart))
    (fun part hpart => hfits.name_size part (List.mem_append_left _ hpart))
    (FileTree.kindAt_of_find?_append (by simp) hnode)]
  simp only [descend, hname.ne_empty, hname.ne_dot, hname.ne_dotDot, hlong, hnode, hrest, or_self,
    if_false, List.nil_append]

/-- There is something at the end of a path without links, or it leads on from a folder into nothing,
or it leads on from a file. -/
theorem IsUnlinked.cases (h : fs.IsUnlinked names) (hroot : fs.root.kindAt [] = some .folder) :
    (∃ kind, fs.root.kindAt names = some kind) ∨
      (∃ front name rest, names = front ++ name :: rest ∧ fs.IsMissing front name) ∨
      ∃ above rest contents, names = above ++ rest ∧ rest ≠ [] ∧
        fs.root.kindAt above = some (.file contents) := by
  induction names using List.reverseRecOn with
  | nil => exact .inl ⟨_, hroot⟩
  | append_singleton front last ih =>
      rcases ih h.front with ⟨kind, hkind⟩ | ⟨above, name, rest, rfl, hmissing⟩ |
        ⟨above, rest, contents, rfl, hrest, hfile⟩
      · cases kind with
        | file contents => exact .inr (.inr ⟨front, [last], contents, rfl, by simp, hkind⟩)
        | link target => exact absurd hkind (h front (List.prefix_append _ _) target)
        | folder =>
            cases hlast : fs.root.kindAt (front ++ [last]) with
            | none => exact .inr (.inl ⟨front, last, [], rfl, hkind, hlast⟩)
            | some kind => exact .inl ⟨kind, rfl⟩
      · exact .inr (.inl ⟨above, name, rest ++ [last], by simp, hmissing⟩)
      · exact .inr (.inr ⟨above, rest ++ [last], contents, by simp, by simp, hfile⟩)

theorem IsMissing.isFree {front rest : List String} {name : String} (h : fs.IsMissing front name) :
    fs.IsFree (front ++ name :: rest) := by
  intro path hpath
  rcases List.prefix_or_prefix_of_prefix hpath (List.prefix_append front _) with
    ⟨back, rfl⟩ | ⟨back, rfl⟩
  · exact .inr (FileTree.kindAt_front h.folder)
  · cases back with
    | nil => exact .inr (by rw [List.append_nil, h.folder])
    | cons first back =>
        rw [List.prefix_append_right_inj] at hpath
        obtain ⟨rfl, -⟩ := List.cons_prefix_cons.1 hpath
        rw [List.append_cons]
        exact .inl (FileTree.kindAt_append_of_none h.none back)

theorem kindAt_of_isMissing {front rest : List String} {name : String}
    (h : fs.IsMissing front name) : fs.root.kindAt (front ++ name :: rest) = none := by
  rw [List.append_cons]
  exact FileTree.kindAt_append_of_none h.none rest

end Locate

/-! ### Answers -/

section Answers

variable {fs result : FileSystem} {names : List String} {contents : ByteArray}

theorem read_folder (hplain : ∀ name ∈ names, IsPlain name) (hfits : Fits names)
    (h : fs.root.kindAt names = some .folder) :
    fs.read (absolute names) = .error .isADirectory := by
  obtain ⟨es, hes⟩ := FileTree.exists_entries_of_kindAt h
  rw [read, node, locate_of_kindAt hplain hfits h (by simp), hes]
  rfl

theorem removeFile_folder (hplain : ∀ name ∈ names, IsPlain name) (hfits : Fits names)
    (h : fs.root.kindAt names = some .folder) :
    fs.removeFile (absolute names) = .error .isADirectory := by
  obtain ⟨es, hes⟩ := FileTree.exists_entries_of_kindAt h
  rw [removeFile, locate_of_kindAt hplain hfits h (by simp), hes]
  rfl

theorem exists?_of_kindAt (hplain : ∀ name ∈ names, IsPlain name) (hfits : Fits names)
    {kind : FileTree.Kind} (h : fs.root.kindAt names = some kind)
    (hlink : ∀ target, kind ≠ .link target) : fs.exists? (absolute names) = .ok true := by
  rw [FileTree.kindAt, Option.map_eq_some_iff] at h
  obtain ⟨t, ht, hkind⟩ := h
  have hlocate := @locate_of_kindAt fs names true hplain hfits kind
    (by rw [FileTree.kindAt, ht, Option.map_some, hkind]) hlink
  rw [exists?, node, hlocate, ht]
  rfl

theorem IsUnlinked.read_eq_ok_iff (h : fs.IsUnlinked names)
    (hplain : ∀ name ∈ names, IsPlain name) :
    fs.read (absolute names) = .ok contents ↔
      Fits names ∧ fs.root.kindAt names = some (.file contents) := by
  refine ⟨fun hread => ?_, fun ⟨hfits, hfile⟩ => read_file hplain hfits hfile⟩
  obtain ⟨t, hnode, hcontents⟩ := bind_eq_ok_iff.1 hread
  obtain ⟨place, hlocate, hplace⟩ := bind_eq_ok_iff.1 hnode
  obtain ⟨hfits, rfl⟩ := h.eq_of_locate hplain hlocate
  refine ⟨hfits, ?_⟩
  cases hfind : fs.root.find? names with
  | none =>
      rw [hfind] at hplace
      cases hplace
  | some found =>
      rw [hfind] at hplace
      obtain rfl := Except.ok.inj hplace
      cases found with
      | file bytes =>
          obtain rfl := Except.ok.inj hcontents
          rw [FileTree.kindAt, hfind]
          rfl
      | link target => cases hcontents
      | folder es => cases hcontents

theorem IsUnlinked.list_eq_ok_iff (h : fs.IsUnlinked names)
    (hplain : ∀ name ∈ names, IsPlain name) {es : List (String × FileTree)} :
    fs.list (absolute names) = .ok es ↔ Fits names ∧ fs.root.find? names = some (.folder es) := by
  refine ⟨fun hlist => ?_, fun ⟨hfits, hfind⟩ => list_absolute hplain hfits hfind⟩
  obtain ⟨found, hlocate⟩ := exists_locate_of_list hlist
  obtain ⟨hfits, hplace⟩ := h.eq_of_locate hplain hlocate
  exact ⟨hfits, (Place.mk.inj hplace).2.symm⟩

theorem IsUnlinked.removeFile_eq_ok_iff (h : fs.IsUnlinked names)
    (hplain : ∀ name ∈ names, IsPlain name) :
    fs.removeFile (absolute names) = .ok result ↔
      Fits names ∧ (∃ contents, fs.root.kindAt names = some (.file contents)) ∧
        result = fs.remove names := by
  constructor
  · intro hremove
    obtain ⟨place, hlocate, hplace⟩ := bind_eq_ok_iff.1 hremove
    obtain ⟨hfits, rfl⟩ := h.eq_of_locate hplain hlocate
    cases hfind : fs.root.find? names with
    | none =>
        rw [hfind] at hplace
        cases hplace
    | some found =>
        rw [hfind] at hplace
        cases found with
        | file bytes =>
            refine ⟨hfits, ⟨bytes, ?_⟩, (Except.ok.inj hplace).symm⟩
            rw [FileTree.kindAt, hfind]
            rfl
        | link target =>
            refine absurd ?_ (h names List.prefix_rfl target)
            rw [FileTree.kindAt, hfind]
            rfl
        | folder es => cases hplace
  · rintro ⟨hfits, ⟨contents, hfile⟩, rfl⟩
    exact removeFile_file hplain hfits hfile

/-- What isn't found when it is read isn't there, and nothing but folders is on the way. -/
theorem IsUnlinked.isFree_of_read (h : fs.IsUnlinked names)
    (hroot : fs.root.kindAt [] = some .folder) (hplain : ∀ name ∈ names, IsPlain name)
    (hfits : Fits names) (hread : fs.read (absolute names) = .error .notFound) :
    fs.IsFree names ∧ fs.root.kindAt names = none := by
  rcases h.cases hroot with ⟨kind, hkind⟩ | ⟨front, name, rest, rfl, hmissing⟩ |
    ⟨above, rest, contents, rfl, hrest, hfile⟩
  · cases kind with
    | file contents =>
        rw [read_file hplain hfits hkind] at hread
        cases hread
    | link target => exact absurd hkind (h names List.prefix_rfl target)
    | folder =>
        rw [read_folder hplain hfits hkind] at hread
        cases hread
  · exact ⟨hmissing.isFree, kindAt_of_isMissing hmissing⟩
  · rw [read, node, locate_of_file_above hplain hfits hroot hrest hfile] at hread
    cases hread

theorem IsUnlinked.isFree_of_exists? (h : fs.IsUnlinked names)
    (hroot : fs.root.kindAt [] = some .folder) (hplain : ∀ name ∈ names, IsPlain name)
    (hfits : Fits names) (hexists : fs.exists? (absolute names) = .ok false) :
    fs.IsFree names ∧ fs.root.kindAt names = none := by
  rcases h.cases hroot with ⟨kind, hkind⟩ | ⟨front, name, rest, rfl, hmissing⟩ |
    ⟨above, rest, contents, rfl, hrest, hfile⟩
  · rw [exists?_of_kindAt hplain hfits hkind fun target htarget =>
      h names List.prefix_rfl target (htarget ▸ hkind)] at hexists
    cases hexists
  · exact ⟨hmissing.isFree, kindAt_of_isMissing hmissing⟩
  · rw [exists?, node, locate_of_file_above hplain hfits hroot hrest hfile] at hexists
    cases hexists

/-- What is at a path, if anything, can be removed as a file: nothing but folders is above it, and it
is no folder itself. -/
structure IsClear (fs : FileSystem) (names : List String) : Prop where
  above : ∀ front, front <+: names → front ≠ names →
    fs.root.kindAt front = none ∨ fs.root.kindAt front = some .folder
  no_folder : fs.root.kindAt names ≠ some .folder

theorem isClear_of_file (h : fs.root.kindAt names = some (.file contents)) : fs.IsClear names := by
  refine ⟨fun front hfront hne => ?_, by simp [h]⟩
  obtain ⟨back, rfl⟩ := hfront
  have hback : back ≠ [] := by
    rintro rfl
    exact hne (List.append_nil front).symm
  exact .inr (FileTree.kindAt_of_find?_append hback (exists_find?_of_kindAt_file h))

/-- Where nothing changed, a path is as clear as it was. -/
theorem isClear_congr {other : FileSystem}
    (h : ∀ front, front <+: names → other.root.kindAt front = fs.root.kindAt front) :
    other.IsClear names ↔ fs.IsClear names := by
  have hsame : ∀ a b : FileSystem,
      (∀ front, front <+: names → a.root.kindAt front = b.root.kindAt front) →
        b.IsClear names → a.IsClear names := by
    intro a b hab hclear
    refine ⟨fun front hfront hne => ?_, ?_⟩
    · rw [hab front hfront]
      exact hclear.above front hfront hne
    · rw [hab names List.prefix_rfl]
      exact hclear.no_folder
  exact ⟨hsame fs other fun front hfront => (h front hfront).symm, hsame other fs h⟩

/-- The removal of a file clears no path that leads elsewhere, nor one that is clear already. -/
theorem isClear_remove_iff {path : List String} (hfile : fs.root.kindAt path = some (.file contents))
    (hne : path ≠ []) (hpath : path <+: names → path = names) :
    (fs.remove path).IsClear names ↔ fs.IsClear names := by
  have hkind : ∀ front, (fs.remove path).root.kindAt front =
      if path <+: front then none else fs.root.kindAt front := FileTree.kindAt_erase hne _
  by_cases hsame : path <+: names
  · obtain rfl := hpath hsame
    have habove : ∀ front, front <+: path → front ≠ path → ¬ path <+: front := fun front hfront hne
        hstart => hne (hfront.eq_of_length (Nat.le_antisymm hfront.length_le hstart.length_le))
    constructor
    · intro hclear
      refine ⟨fun front hfront hne => ?_, by simp [hfile]⟩
      have hold := hclear.above front hfront hne
      rwa [hkind, if_neg (habove front hfront hne)] at hold
    · intro hclear
      refine ⟨fun front hfront hne => ?_, ?_⟩
      · rw [hkind, if_neg (habove front hfront hne)]
        exact hclear.above front hfront hne
      · rw [hkind, if_pos List.prefix_rfl]
        exact nofun
  · exact isClear_congr fun front hfront =>
      (hkind front).trans (if_neg fun hstart => hsame (hstart.trans hfront))

/-- A removal of what needn't be there fails exactly where the path isn't clear. -/
theorem IsUnlinked.removeFile_cases (h : fs.IsUnlinked names)
    (hroot : fs.root.kindAt [] = some .folder) (hplain : ∀ name ∈ names, IsPlain name)
    (hfits : Fits names) :
    fs.IsClear names ∧ (fs.removeFile (absolute names) = .ok (fs.remove names) ∨
        fs.removeFile (absolute names) = .error .notFound) ∨
      ¬ fs.IsClear names ∧ ∃ e, e ≠ .notFound ∧ fs.removeFile (absolute names) = .error e := by
  rcases h.cases hroot with ⟨kind, hkind⟩ | ⟨front, name, rest, rfl, hmissing⟩ |
    ⟨above, rest, contents, rfl, hrest, hfile⟩
  · cases kind with
    | file contents =>
        exact .inl ⟨isClear_of_file hkind, .inl (removeFile_file hplain hfits hkind)⟩
    | link target => exact absurd hkind (h names List.prefix_rfl target)
    | folder => exact .inr ⟨fun hclear => hclear.no_folder hkind, _, by simp,
        removeFile_folder hplain hfits hkind⟩
  · refine .inl ⟨⟨fun front hfront _ => hmissing.isFree front hfront, fun hfolder => ?_⟩,
      .inr (removeFile_missing hplain hfits hmissing)⟩
    rw [kindAt_of_isMissing hmissing] at hfolder
    cases hfolder
  · refine .inr ⟨fun hclear => ?_, .notADirectory, by simp, ?_⟩
    · have hfree := hclear.above above (List.prefix_append above rest) (by simpa using hrest)
      rw [hfile] at hfree
      simp at hfree
    · rw [removeFile, locate_of_file_above hplain hfits hroot hrest hfile]
      rfl

end Answers

end FileSystem

end InfraGraph
