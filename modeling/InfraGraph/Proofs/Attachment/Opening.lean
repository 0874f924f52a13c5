import InfraGraph.Proofs.Attachment.Mirror

/-!
# Opening a directory as a store

A directory in which there is nothing but folders becomes an empty store, with the folders above it
made as far as they aren't there.  A directory that is a store already isn't changed.
-/

namespace InfraGraph.DirectoryStore

open InfraGraph.Path FileSystem

/-- There is room for a store in a directory: nothing is in its place but folders. -/
structure IsVacant (files : FileSystem) (home : List String) : Prop where
  isHome : IsHome home
  wellFormed : files.root.WellFormed
  root : files.root.kindAt [] = some .folder
  free : files.IsFree home
  bare : ∀ path kind, files.root.kindAt (home ++ path) = some kind →
    kind = .folder ∧ IsFolderPath path

section Opening

variable {files : FileSystem} {home : List String}

/-- The folders in which a store is to be can be made, and its own folders below it. -/
theorem IsVacant.exists_createFolders (h : IsVacant files home) {path : List String}
    (hinside : IsInside path) (hpath : ∀ front, front <+: path → IsFolderPath front) :
    ∃ result, files.createFolders (absolute (home ++ path)) = .ok result ∧
      IsVacant result home ∧ files.AddsFolders (home ++ path) result := by
  have hfree : files.IsFree (home ++ path) := by
    rintro front ⟨back, hsplit⟩
    rcases List.append_eq_append_iff.1 hsplit with ⟨rest, rfl, _⟩ | ⟨rest, rfl, rfl⟩
    · exact h.free front (List.prefix_append front rest)
    · cases hkind : files.root.kindAt (home ++ rest) with
      | none => exact .inl rfl
      | some kind => exact .inr (congrArg some (h.bare rest kind hkind).1)
  obtain ⟨result, hcreate, hadds⟩ := FileSystem.exists_createFolders h.wellFormed h.root
    (h.isHome.plain_append hinside) (h.isHome.fits_append hinside) hfree
  refine ⟨result, hcreate, ⟨h.isHome, hadds.wellFormed, ?_, fun front hfront => ?_,
    fun rest kind hkind => ?_⟩, hadds⟩
  · rw [hadds.kindAt, if_pos List.nil_prefix]
  · exact .inr (by rw [hadds.kindAt, if_pos (hfront.trans (List.prefix_append home path))])
  · rw [hadds.kindAt] at hkind
    split at hkind
    · rename_i hstart
      rw [List.prefix_append_right_inj] at hstart
      exact ⟨(Option.some.inj hkind).symm, hpath rest hstart⟩
    · exact h.bare rest kind hkind

theorem IsVacant.exists_createFolder (h : IsVacant files home) {name : String}
    (hname : name ∈ [stagingFolder, blobFolder, recordFolder]) :
    ∃ result, files.createFolders (join (absolute home) name) = .ok result ∧
      IsVacant result home ∧ files.AddsFolders (home ++ [name]) result := by
  have hinside := isInside_folder hname
  rw [join_absolute_name h.isHome.plain (hinside.plain name (by simp))]
  exact h.exists_createFolders hinside fun front hfront => .inl hfront.length_le

theorem kindAt_of_addsFolders {result : FileSystem} {path rest : List String}
    (h : files.AddsFolders (home ++ rest) result) (hhome : ¬ path <+: home)
    (hpath : ¬ home <+: path) : result.root.kindAt path = files.root.kindAt path := by
  rw [h.kindAt, if_neg]
  intro hstart
  rcases List.prefix_or_prefix_of_prefix hstart (List.prefix_append home rest) with h | h
  · exact hhome h
  · exact hpath h

/-- A directory in which there is room can be opened, and the store is empty. -/
theorem IsVacant.exists_openAt (h : IsVacant files home) :
    ∃ store, openAt files (absolute home) = .ok store ∧ store.Mirrors home MemoryStore.empty ∧
      ∀ path, ¬ path <+: home → ¬ home <+: path →
        store.files.root.kindAt path = files.root.kindAt path := by
  have hnil : IsInside [] := ⟨by simp, by simp, Nat.zero_le _⟩
  obtain ⟨made, hmade, hvacant, hmadeAdds⟩ := h.exists_createFolders hnil fun front hfront =>
    .inl (Nat.le_succ_of_le hfront.length_le)
  obtain ⟨staging, hstaging, hvacant, hstagingAdds⟩ :=
    @IsVacant.exists_createFolder _ _ hvacant stagingFolder (by simp)
  obtain ⟨blobs, hblobs, hvacant, hblobsAdds⟩ :=
    @IsVacant.exists_createFolder _ _ hvacant blobFolder (by simp)
  obtain ⟨records, hrecords, hvacant, hrecordsAdds⟩ :=
    @IsVacant.exists_createFolder _ _ hvacant recordFolder (by simp)
  refine ⟨⟨records, absolute home⟩, ?_, ⟨rfl, hvacant.wellFormed, ⟨nofun, nofun, nofun⟩,
    fun path contents hkeeps => ?_, fun path kind hkind => ?_, fun name hname => ?_⟩,
    fun path hhome hpath => ?_⟩
  · rw [List.append_nil] at hmade
    rw [openAt, hmade]
    simp only [bind, Except.bind, hstaging, hblobs, hrecords]
    rfl
  · cases hkeeps with
    | record hfind => cases hfind
    | blob hfind => cases hfind
  · obtain ⟨rfl, hpath⟩ := hvacant.bare path kind hkind
    exact .folder hpath
  · simp only [hrecordsAdds.kindAt, hblobsAdds.kindAt, hstagingAdds.kindAt]
    simp only [List.mem_cons, List.not_mem_nil, or_false] at hname
    rcases hname with rfl | rfl | rfl <;> simp
  · rw [kindAt_of_addsFolders hrecordsAdds hhome hpath,
      kindAt_of_addsFolders hblobsAdds hhome hpath,
      kindAt_of_addsFolders hstagingAdds hhome hpath, kindAt_of_addsFolders hmadeAdds hhome hpath]

/-- There is room for a store everywhere in a file system without anything. -/
theorem isVacant_of_bareRoot (hhome : IsHome home) (workingDirectory : List String) :
    IsVacant ⟨.folder [], workingDirectory⟩ home := by
  have hkind : ∀ path kind, (FileTree.folder []).kindAt path = some kind →
      path = [] ∧ kind = .folder := by
    intro path kind hkind
    cases path with
    | nil => exact ⟨rfl, (Option.some.inj hkind).symm⟩
    | cons name rest => cases hkind
  refine ⟨hhome, FileTree.wellFormed_folder_iff.2 ⟨List.Pairwise.nil, by simp⟩, rfl,
    fun front _ => ?_, fun path kind hfound => ?_⟩
  · cases hfront : (FileTree.folder []).kindAt front with
    | none => exact .inl rfl
    | some kind => exact .inr (congrArg some (hkind front kind hfront).2)
  · obtain ⟨hpath, hfolder⟩ := hkind _ kind hfound
    rw [List.append_eq_nil_iff] at hpath
    rw [hpath.2]
    exact ⟨hfolder, .inl (Nat.zero_le 1)⟩

end Opening

section Reopening

variable {home : List String} {store : DirectoryStore} {memory : MemoryStore}

/-- Opening a directory that is a store already changes nothing. -/
theorem Mirrors.openAt_eq (h : store.Mirrors home memory) (hhome : IsHome home) :
    openAt store.files store.path = .ok store := by
  have hfolder : ∀ name ∈ [stagingFolder, blobFolder, recordFolder],
      store.files.createFolders (join store.path name) = .ok store.files := by
    intro name hname
    have hinside := isInside_folder hname
    rw [h.path, join_absolute_name hhome.plain (hinside.plain name (by simp))]
    exact createFolders_folder (hhome.plain_append hinside) (h.folders name hname)
      (hhome.fits_append hinside)
  have hself : store.files.createFolders store.path = .ok store.files := by
    rw [h.path]
    exact createFolders_folder hhome.plain h.kindAt_home hhome.fits
  rw [openAt, hself]
  simp only [bind, Except.bind, hfolder stagingFolder (by simp), hfolder blobFolder (by simp),
    hfolder recordFolder (by simp)]
  rfl

end Reopening

end InfraGraph.DirectoryStore
