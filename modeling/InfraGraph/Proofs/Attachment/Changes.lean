import InfraGraph.Proofs.Attachment.Mirror
import InfraGraph.Proofs.Attachment.Requests

/-!
# Changing a directory that mirrors a store in memory

A file that is written to a mirror, or taken away from it, makes it the mirror of the store in
memory with or without what the file stands for.  Emptying a folder takes away everything that is
kept in it.  Nothing outside of the folder of the store is changed.
-/

namespace InfraGraph.DirectoryStore

open InfraGraph.Path FileSystem

/-- What isn't below a folder is the same in another state of a store. -/
def SameOutside (home : List String) (store next : DirectoryStore) : Prop :=
  ∀ path, ¬ home <+: path → next.files.root.kindAt path = store.files.root.kindAt path

/-- Run in a directory, an operation answers and leaves the mirror of a store in memory. -/
def Yields {α : Type} (home : List String) (store : DirectoryStore)
    (operation : StoreM DirectoryStore α) (answer : Except StoreError α) (memory : MemoryStore) :
    Prop :=
  ∃ next, StoreM.runIn store operation = (answer, next) ∧ next.Mirrors home memory ∧
    SameOutside home store next

section Yields

variable {α β : Type} {home : List String} {store : DirectoryStore}
  {memory middle last : MemoryStore}

theorem Yields.bind {operation : StoreM DirectoryStore α} {a : α}
    {rest : α → StoreM DirectoryStore β} {answer : Except StoreError β}
    (h : Yields home store operation (.ok a) middle)
    (hrest : ∀ next : DirectoryStore, next.Mirrors home middle →
      Yields home next (rest a) answer last) :
    Yields home store (operation >>= rest) answer last := by
  obtain ⟨next, hrun, hnext, hsame⟩ := h
  obtain ⟨final, hfinal, hmirrors, hsame'⟩ := hrest next hnext
  refine ⟨final, ?_, hmirrors, fun path hpath => (hsame' path hpath).trans (hsame path hpath)⟩
  rw [StoreM.runIn_bind, hrun]
  exact hfinal

theorem Yields.bind_error {operation : StoreM DirectoryStore α} {e : StoreError}
    {rest : α → StoreM DirectoryStore β} (h : Yields home store operation (.error e) last) :
    Yields home store (operation >>= rest) (.error e) last := by
  obtain ⟨next, hrun, hmirrors⟩ := h
  refine ⟨next, ?_, hmirrors⟩
  rw [StoreM.runIn_bind, hrun]

theorem Mirrors.yields_pure (h : store.Mirrors home memory) (a : α) :
    Yields home store (pure a) (.ok a) memory :=
  ⟨store, rfl, h, fun _ _ => rfl⟩

theorem Mirrors.yields_look (h : store.Mirrors home memory)
    {question : DirectoryStore → Except StoreError α} {answer : Except StoreError α}
    (hanswer : question store = answer) : Yields home store (StoreM.look question) answer memory :=
  ⟨store, by rw [← hanswer]; rfl, h, fun _ _ => rfl⟩

theorem runIn_act (operation : DirectoryStore → Except FileError FileSystem) {files : FileSystem}
    (h : operation store = .ok files) :
    StoreM.runIn store (act operation) = (.ok (), { store with files := files }) := by
  refine StoreM.runIn_changeOrFail ?_
  rw [h]

end Yields

/-! ### What a store in memory has after a change -/

section Keeps

variable {memory : MemoryStore} {id key : String} {record : Attachment} {contents : ByteArray}
  {path : List String}

theorem recordPath_inj {other : String}
    (h : [recordFolder, other ++ ".json"] = [recordFolder, id ++ ".json"]) : other = id :=
  fileName_inj (List.cons.inj (List.cons.inj h).2).1

theorem blobPath_inj {other : String}
    (h : [blobFolder, shardOf other, other] = [blobFolder, shardOf key, key]) : other = key :=
  (List.cons.inj (List.cons.inj (List.cons.inj h).2).2).1

theorem recordPath_ne_blobPath :
    [recordFolder, id ++ ".json"] ≠ [blobFolder, shardOf key, key] :=
  fun h => recordFolder_ne_blobFolder (List.cons.inj h).1

theorem keeps_insert_record (hnone : memory.records.find? id = none) :
    Keeps { memory with records := memory.records.insert id record } path contents ↔
      path = [recordFolder, id ++ ".json"] ∧ contents = recordText record ∨
        Keeps memory path contents := by
  constructor
  · intro h
    cases h with
    | blob h => exact .inr (.blob h)
    | @record other found h =>
        rw [SortedMap.find?_insert] at h
        split at h
        · rename_i hid
          exact .inl ⟨by rw [hid], by rw [Option.some.inj h]⟩
        · exact .inr (.record h)
  · rintro (⟨rfl, rfl⟩ | h)
    · exact .record (SortedMap.find?_insert_self _ _ _)
    · cases h with
      | blob h => exact .blob h
      | record h => exact .record (SortedMap.find?_insert_of_find? hnone record h)

theorem keeps_insert_blob {added : ByteArray} (hnone : memory.blobs.find? key = none) :
    Keeps { memory with blobs := memory.blobs.insert key added } path contents ↔
      path = [blobFolder, shardOf key, key] ∧ contents = added ∨ Keeps memory path contents := by
  constructor
  · intro h
    cases h with
    | record h => exact .inr (.record h)
    | @blob other _ h =>
        rw [SortedMap.find?_insert] at h
        split at h
        · rename_i hkey
          exact .inl ⟨by rw [hkey], (Option.some.inj h).symm⟩
        · exact .inr (.blob h)
  · rintro (⟨rfl, rfl⟩ | h)
    · exact .blob (SortedMap.find?_insert_self _ _ _)
    · cases h with
      | record h => exact .record h
      | blob h => exact .blob (SortedMap.find?_insert_of_find? hnone added h)

theorem keeps_erase_record :
    Keeps { memory with records := memory.records.erase id } path contents ↔
      Keeps memory path contents ∧ path ≠ [recordFolder, id ++ ".json"] := by
  constructor
  · intro h
    cases h with
    | blob h => exact ⟨.blob h, recordPath_ne_blobPath.symm⟩
    | @record other found h =>
        rw [SortedMap.find?_erase] at h
        split at h
        · cases h
        · rename_i hid
          exact ⟨.record h, fun hpath => hid (recordPath_inj hpath)⟩
  · rintro ⟨h, hpath⟩
    cases h with
    | blob h => exact .blob h
    | @record other found h =>
        refine .record ((SortedMap.find?_erase _ _ _).trans ?_)
        rw [if_neg fun hid => hpath (by rw [hid]), h]

theorem keeps_erase_blob :
    Keeps { memory with blobs := memory.blobs.erase key } path contents ↔
      Keeps memory path contents ∧ path ≠ [blobFolder, shardOf key, key] := by
  constructor
  · intro h
    cases h with
    | record h => exact ⟨.record h, recordPath_ne_blobPath⟩
    | @blob other _ h =>
        rw [SortedMap.find?_erase] at h
        split at h
        · cases h
        · rename_i hkey
          exact ⟨.blob h, fun hpath => hkey (blobPath_inj hpath)⟩
  · rintro ⟨h, hpath⟩
    cases h with
    | record h => exact .record h
    | @blob other _ h =>
        refine .blob ((SortedMap.find?_erase _ _ _).trans ?_)
        rw [if_neg fun hkey => hpath (by rw [hkey]), h]

theorem keeps_empty_blobs :
    Keeps { memory with blobs := .empty } path contents ↔
      Keeps memory path contents ∧ ¬ [blobFolder] <+: path := by
  constructor
  · intro h
    cases h with
    | record h =>
        exact ⟨.record h, fun hstart =>
          recordFolder_ne_blobFolder (List.cons_prefix_cons.1 hstart).1.symm⟩
    | blob h => cases h
  · rintro ⟨h, hpath⟩
    cases h with
    | record h => exact .record h
    | blob h => exact absurd ⟨_, rfl⟩ hpath

theorem keeps_empty_records :
    Keeps { memory with records := .empty } path contents ↔
      Keeps memory path contents ∧ ¬ [recordFolder] <+: path := by
  constructor
  · intro h
    cases h with
    | record h => cases h
    | blob h =>
        exact ⟨.blob h, fun hstart =>
          recordFolder_ne_blobFolder (List.cons_prefix_cons.1 hstart).1⟩
  · rintro ⟨h, hpath⟩
    cases h with
    | record h => exact absurd ⟨_, rfl⟩ hpath
    | blob h => exact .blob h

end Keeps

/-! ### Writing and removing files -/

section Files

variable {home front path : List String} {last : String} {store : DirectoryStore}
  {memory other : MemoryStore} {contents : ByteArray}

theorem Mirrors.kindAt_eq_none (h : store.Mirrors home memory) (hfile : ¬ IsFilePath path)
    (hfolder : ¬ IsFolderPath path) : store.files.root.kindAt (home ++ path) = none := by
  cases hkind : store.files.root.kindAt (home ++ path) with
  | none => rfl
  | some kind =>
      cases h.holds path kind hkind with
      | file hkeeps => exact absurd hkeeps.isFilePath hfile
      | folder hpath => exact absurd hpath hfolder

/-- Where a file of the store could be, there is that file or nothing. -/
theorem Mirrors.kindAt_of_not_keeps (h : store.Mirrors home memory) (hpath : IsFilePath path)
    (hnone : ∀ old, ¬ Keeps memory path old) : store.files.root.kindAt (home ++ path) = none := by
  refine (h.isFree hpath hnone _ List.prefix_rfl).resolve_right fun hfolder => ?_
  exact hpath.not_isFolderPath (h.folder hfolder)

/-- What leads below the folder of a store, but isn't in it, leads to that folder. -/
theorem Mirrors.kindAt_of_prefix (h : store.Mirrors home memory)
    (hstart : path <+: home ++ front) (hpath : ¬ home <+: path) :
    store.files.root.kindAt path = some .folder := by
  rcases List.prefix_or_prefix_of_prefix hstart (List.prefix_append home front) with
    ⟨back, hback⟩ | hhome
  · have hfolder := h.kindAt_home
    rw [← hback] at hfolder
    exact FileTree.kindAt_front hfolder
  · exact absurd hhome hpath

theorem Mirrors.isMissing_staged (h : store.Mirrors home memory) :
    store.files.IsMissing (home ++ [stagingFolder]) "staged" := by
  refine ⟨h.folders stagingFolder (by simp), ?_⟩
  rw [List.append_assoc]
  exact h.kindAt_eq_none not_isFilePath_staged not_isFolderPath_staged

/-- Once a file is put into its place, a mirror is one of the store that has the file. -/
theorem Mirrors.addFile (h : store.Mirrors home memory) {files : FileSystem}
    (hadds : store.files.AddsFile (home ++ [stagingFolder] ++ ["staged"]) (home ++ front) last
      contents files)
    (hpath : IsFilePath (front ++ [last]))
    (hnone : ∀ old, ¬ Keeps memory (front ++ [last]) old) (hwritable : other.IsWritable)
    (hother : ∀ path new, Keeps other path new ↔
      path = front ++ [last] ∧ new = contents ∨ Keeps memory path new) :
    Mirrors { store with files := files } home other := by
  have hkind : ∀ path, files.root.kindAt (home ++ path) =
      if path = front ++ [last] then some (.file contents)
      else if [stagingFolder, "staged"] <+: path then none
      else if path <+: front then some .folder
      else store.files.root.kindAt (home ++ path) := by
    intro path
    rw [hadds.kindAt]
    simp only [List.append_assoc, List.append_cancel_left_eq, List.prefix_append_right_inj,
      List.cons_append, List.nil_append]
  refine ⟨h.path, hadds.wellFormed, hwritable, fun path new hkeeps => ?_,
    fun path kind hfound => ?_, fun name hname => ?_⟩
  · rw [hkind]
    rcases (hother path new).1 hkeeps with ⟨rfl, rfl⟩ | hkept
    · rw [if_pos rfl]
    · have hfile := hkept.isFilePath
      have hlast : path ≠ front ++ [last] := fun heq => hnone new (heq ▸ hkept)
      have hfront : ¬ path <+: front := fun hstart =>
        hfile.not_isFolderPath (hpath.isFolderPath_front hstart)
      rw [if_neg hlast, if_neg hfile.not_staged_prefix, if_neg hfront]
      exact h.kept path new hkept
  · rw [hkind] at hfound
    split at hfound
    · rename_i hlast
      rw [← Option.some.inj hfound]
      exact .file ((hother _ _).2 (.inl ⟨hlast, rfl⟩))
    · split at hfound
      · cases hfound
      · split at hfound
        · rename_i hstart
          rw [← Option.some.inj hfound]
          exact .folder (hpath.isFolderPath_front hstart)
        · cases h.holds path kind hfound with
          | file hkeeps => exact .file ((hother _ _).2 (.inr hkeeps))
          | folder hfolder => exact .folder hfolder
  · have hfolder := isFolderPath_singleton name
    have hlast : [name] ≠ front ++ [last] := fun heq => hpath.not_isFolderPath (heq ▸ hfolder)
    have hstaged : ¬ [stagingFolder, "staged"] <+: [name] := fun hstart => by
      simpa using hstart.length_le
    rw [hkind, if_neg hlast, if_neg hstaged, h.folders name hname]
    split <;> rfl

theorem Mirrors.sameOutside_addFile (h : store.Mirrors home memory) {files : FileSystem}
    (hadds : store.files.AddsFile (home ++ [stagingFolder] ++ ["staged"]) (home ++ front) last
      contents files) : SameOutside home store { store with files := files } := by
  intro path hpath
  have hlast : path ≠ home ++ front ++ [last] := fun heq =>
    hpath (heq ▸ by simp [List.append_assoc])
  have hstaged : ¬ home ++ [stagingFolder] ++ ["staged"] <+: path := fun hstart =>
    hpath (((List.prefix_append home _).trans (List.prefix_append _ _)).trans hstart)
  rw [hadds.kindAt, if_neg hlast, if_neg hstaged]
  split
  · rename_i hstart
    exact (h.kindAt_of_prefix hstart hpath).symm
  · rfl

theorem runIn_writeStaged {target : DirectoryStore → String} {written above result : FileSystem}
    (hwrite : store.files.write store.stagingPath contents = .ok written)
    (hfolders : written.createFolders
      ((parent? (target { store with files := written })).getD "") = .ok above)
    (hmove : above.move (stagingPath { store with files := above })
      (target { store with files := above }) = .ok result) :
    StoreM.runIn store (writeStaged target contents) =
      (.ok (), { store with files := result }) := by
  have hfirst := @runIn_act store (fun store => store.files.write store.stagingPath contents)
    written hwrite
  have hsecond := @runIn_act { store with files := written }
    (fun store => store.files.createFolders ((parent? (target store)).getD "")) above hfolders
  have hthird := @runIn_act { store with files := above }
    (fun store => store.files.move store.stagingPath (target store)) result hmove
  simp only [writeStaged, StoreM.runIn_bind, hfirst, hsecond, hthird]

/-- A file that isn't there yet gets into its place, with the folders above it. -/
theorem exists_runIn_writeStaged {target : DirectoryStore → String} (hhome : IsHome home)
    (hstore : store.path = absolute home) (hwell : store.files.root.WellFormed)
    (hroot : store.files.root.kindAt [] = some .folder)
    (hstage : store.files.IsMissing (home ++ [stagingFolder]) "staged")
    (htarget : ∀ store : DirectoryStore, store.path = absolute home →
      target store = absolute (home ++ (front ++ [last])))
    (hinside : IsInside (front ++ [last])) (hpath : IsFilePath (front ++ [last]))
    (hfree : store.files.IsFree (home ++ (front ++ [last])))
    (hnone : store.files.root.kindAt (home ++ (front ++ [last])) = none) :
    ∃ files, StoreM.runIn store (writeStaged target contents) =
        (.ok (), { store with files := files }) ∧
      store.files.AddsFile (home ++ [stagingFolder] ++ ["staged"]) (home ++ front) last contents
        files := by
  have hplain := hhome.plain_append hinside
  have hfits := hhome.fits_append hinside
  have hstagedPlain := hhome.plain_append isInside_staged
  have hstagedFits := hhome.fits_append isInside_staged
  have hapart : ¬ home ++ [stagingFolder, "staged"] <+: home ++ (front ++ [last]) := by
    rw [List.prefix_append_right_inj]
    exact hpath.not_staged_prefix
  have hsplit : home ++ [stagingFolder, "staged"] = home ++ [stagingFolder] ++ ["staged"] := by simp
  rw [← List.append_assoc] at hplain hfits hfree hnone
  rw [hsplit] at hstagedPlain hstagedFits
  rw [hsplit, ← List.append_assoc] at hapart
  obtain ⟨written, above, result, hwrite, hfolders, hmove, hadds⟩ :=
    exists_stage hwell hroot hstagedPlain hstagedFits hstage hplain hfits hfree hnone hapart
      contents
  rw [← hsplit] at hwrite hmove
  have hstaging (files : FileSystem) : stagingPath { store with files := files } =
      absolute (home ++ [stagingFolder, "staged"]) := stagingPath_eq hhome hstore
  have hparent : (parent? (target { store with files := written })).getD "" =
      absolute (home ++ front) := by
    rw [htarget { store with files := written } hstore, ← List.append_assoc,
      parent?_absolute hplain]
    rfl
  have hrun := @runIn_writeStaged store contents target written above result
    (by rw [hstaging store.files, hwrite]) (by rw [hparent, hfolders])
    (by rw [hstaging, htarget { store with files := above } hstore, ← List.append_assoc, hmove])
  exact ⟨result, hrun, hadds⟩

theorem Mirrors.yields_writeStaged (h : store.Mirrors home memory) (hhome : IsHome home)
    {target : DirectoryStore → String}
    (htarget : ∀ store : DirectoryStore, store.path = absolute home →
      target store = absolute (home ++ (front ++ [last])))
    (hinside : IsInside (front ++ [last])) (hpath : IsFilePath (front ++ [last]))
    (hnone : ∀ old, ¬ Keeps memory (front ++ [last]) old) (hwritable : other.IsWritable)
    (hother : ∀ path new, Keeps other path new ↔
      path = front ++ [last] ∧ new = contents ∨ Keeps memory path new) :
    Yields home store (writeStaged target contents) (.ok ()) other := by
  obtain ⟨result, hrun, hadds⟩ := exists_runIn_writeStaged hhome h.path h.wellFormed h.kindAt_root
    h.isMissing_staged htarget hinside hpath (h.isFree hpath hnone)
    (h.kindAt_of_not_keeps hpath hnone)
  exact ⟨_, hrun, h.addFile hadds hpath hnone hwritable hother, h.sameOutside_addFile hadds⟩

theorem IsFilePath.not_prefix_singleton (h : IsFilePath path) (name : String) :
    ¬ path <+: [name] := by
  intro hstart
  rcases h with ⟨file, rfl⟩ | ⟨shard, key, rfl⟩
  · simpa using hstart.length_le
  · simpa using hstart.length_le

theorem kindAt_remove {files : FileSystem} (hne : path ≠ []) (rest : List String) :
    (files.remove (home ++ path)).root.kindAt (home ++ rest) =
      if path <+: rest then none else files.root.kindAt (home ++ rest) := by
  have hremoved := FileTree.kindAt_erase (List.append_ne_nil_of_right_ne_nil home hne) files.root
    (home ++ rest)
  simp only [List.prefix_append_right_inj] at hremoved
  exact hremoved

theorem sameOutside_remove (hne : path ≠ []) :
    SameOutside home store { store with files := store.files.remove (home ++ path) } := by
  intro rest hrest
  refine (FileTree.kindAt_erase (List.append_ne_nil_of_right_ne_nil home hne) _ rest).trans ?_
  rw [if_neg fun hstart => hrest ((List.prefix_append home path).trans hstart)]

/-- Without one of its files, a mirror is one of the store that doesn't have it. -/
theorem Mirrors.removeFile (h : store.Mirrors home memory) (hkeeps : Keeps memory path contents)
    (hwritable : other.IsWritable)
    (hother : ∀ rest new, Keeps other rest new ↔ Keeps memory rest new ∧ rest ≠ path) :
    Mirrors { store with files := store.files.remove (home ++ path) } home other := by
  have hpath := hkeeps.isFilePath
  have hne : path ≠ [] := fun hnil => hpath.not_prefix_singleton "" (hnil ▸ List.nil_prefix)
  refine ⟨h.path, h.wellFormed.erase _, hwritable, fun rest new hkept => ?_,
    fun rest kind hfound => ?_, fun name hname => ?_⟩
  · obtain ⟨hkept, hrest⟩ := (hother rest new).1 hkept
    have hstart : ¬ path <+: rest := fun hstart =>
      hrest (hkept.isFilePath.eq_of_prefix hpath hstart).symm
    rw [kindAt_remove hne, if_neg hstart]
    exact h.kept rest new hkept
  · rw [kindAt_remove hne] at hfound
    split at hfound
    · cases hfound
    · rename_i hstart
      cases h.holds rest kind hfound with
      | folder hfolder => exact .folder hfolder
      | file hkept =>
          exact .file ((hother rest _).2 ⟨hkept, fun heq => hstart (heq ▸ List.prefix_rfl)⟩)
  · rw [kindAt_remove hne, if_neg (hpath.not_prefix_singleton name)]
    exact h.folders name hname

/-- With one of its folders emptied, a mirror is one of the store without what is kept there. -/
theorem Mirrors.clearFolder (h : store.Mirrors home memory) {name : String} {files : FileSystem}
    (hempties : store.files.Empties (home ++ [name]) files) (hwritable : other.IsWritable)
    (hother : ∀ rest new, Keeps other rest new ↔ Keeps memory rest new ∧ ¬ [name] <+: rest) :
    Mirrors { store with files := files } home other := by
  have hkind : ∀ rest, files.root.kindAt (home ++ rest) =
      if rest <+: [name] then some .folder
      else if [name] <+: rest then none
      else store.files.root.kindAt (home ++ rest) := by
    intro rest
    rw [hempties.kindAt]
    simp only [List.prefix_append_right_inj]
  refine ⟨h.path, hempties.wellFormed, hwritable, fun rest new hkept => ?_,
    fun rest kind hfound => ?_, fun folder hfolder => ?_⟩
  · obtain ⟨hkept, hrest⟩ := (hother rest new).1 hkept
    rw [hkind, if_neg (hkept.isFilePath.not_prefix_singleton name), if_neg hrest]
    exact h.kept rest new hkept
  · rw [hkind] at hfound
    split at hfound
    · rename_i hstart
      rw [← Option.some.inj hfound]
      exact .folder (.inl hstart.length_le)
    · split at hfound
      · cases hfound
      · rename_i hstart
        cases h.holds rest kind hfound with
        | folder hfolder => exact .folder hfolder
        | file hkept => exact .file ((hother rest _).2 ⟨hkept, hstart⟩)
  · rw [hkind]
    split
    · rfl
    · rename_i hname
      have hname : ¬ [name] <+: [folder] := fun hstart =>
        hname (hstart.eq_of_length rfl ▸ List.prefix_rfl)
      rw [if_neg hname]
      exact h.folders folder hfolder

theorem Mirrors.sameOutside_clearFolder (h : store.Mirrors home memory) {name : String}
    {files : FileSystem} (hempties : store.files.Empties (home ++ [name]) files) :
    SameOutside home store { store with files := files } := by
  intro path hpath
  rw [hempties.kindAt]
  split
  · rename_i hstart
    exact (h.kindAt_of_prefix hstart hpath).symm
  · rw [if_neg fun hstart => hpath ((List.prefix_append home _).trans hstart)]

theorem Mirrors.yields_emptyFolder (h : store.Mirrors home memory) (hhome : IsHome home)
    {name : String} (hname : name ∈ [stagingFolder, blobFolder, recordFolder])
    (hwritable : other.IsWritable)
    (hother : ∀ rest new, Keeps other rest new ↔ Keeps memory rest new ∧ ¬ [name] <+: rest) :
    Yields home store (emptyFolder name) (.ok ()) other := by
  have hinside := isInside_folder hname
  have hjoin : join store.path name = absolute (home ++ [name]) := by
    rw [h.path, join_absolute_name hhome.plain (hinside.plain name (by simp))]
  obtain ⟨result, hremove, hcreate, hempties⟩ := exists_empty h.wellFormed
    (hhome.plain_append hinside) (hhome.fits_append hinside) (h.folders name hname)
  rw [← hjoin] at hremove hcreate
  have hfirst := @runIn_act store (fun store => store.files.removeFolders (join store.path name))
    _ hremove
  have hsecond := @runIn_act { store with files := store.files.remove (home ++ [name]) }
    (fun store => store.files.createFolders (join store.path name)) result hcreate
  refine ⟨{ store with files := result }, ?_, h.clearFolder hempties hwritable hother,
    h.sameOutside_clearFolder hempties⟩
  simp only [emptyFolder, StoreM.runIn_bind, hfirst, hsecond]

end Files

end InfraGraph.DirectoryStore
