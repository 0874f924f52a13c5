import Mathlib
import InfraGraph.Attachment.Directory
import InfraGraph.Proofs.FileTree.Operations
import InfraGraph.Proofs.Text.Hex

/-!
# Where a store in a directory keeps things

Everything that a store keeps is at most three names below its folder.  As far as an id that is
looked up has no slash and isn't too long, all these names are plain and the paths fit.
-/

namespace InfraGraph.DirectoryStore

open InfraGraph.Path FileSystem

/-! ### Names -/

/-- What can be looked up without leaving the folder of records, or making its path too long. -/
structure IsLookup (id : String) : Prop where
  no_slash : '/' ∉ id.toList
  no_zero : Char.ofNat 0 ∉ id.toList
  size : id.utf8ByteSize ≤ 200

/-- What contents and records are kept under. -/
def IsAddress (key : String) : Prop :=
  ∃ digest : ContentDigest, digest.bytes.length = ContentDigest.size ∧ digest.toHex = key

/-- The folder of the contents with a key. -/
def shardOf (key : String) : String :=
  String.ofList (key.toList.take 2)

section Names

variable {id key : String}

theorem isAddress_of (contents : ByteArray) : IsAddress (ContentDigest.of contents).toHex :=
  ⟨_, ContentDigest.length_bytes_of contents, rfl⟩

theorem IsAddress.mem_hexAlphabet (h : IsAddress key) {c : Char} (hc : c ∈ key.toList) :
    c ∈ Text.hexAlphabet := by
  obtain ⟨digest, _, rfl⟩ := h
  exact Text.mem_hexOfBytes hc

theorem IsAddress.utf8ByteSize (h : IsAddress key) : key.utf8ByteSize = 64 := by
  obtain ⟨digest, hsize, rfl⟩ := h
  rw [ContentDigest.toHex, Text.utf8ByteSize_hexOfBytes, hsize]
  rfl

theorem IsAddress.toList_ne_nil (h : IsAddress key) : key.toList ≠ [] := by
  intro hnil
  obtain rfl : key = "" := by simpa using hnil
  have hsize := h.utf8ByteSize
  cases hsize

theorem slash_not_mem_hexAlphabet : '/' ∉ Text.hexAlphabet := by decide

theorem dot_not_mem_hexAlphabet : '.' ∉ Text.hexAlphabet := by decide

theorem zero_not_mem_hexAlphabet : Char.ofNat 0 ∉ Text.hexAlphabet := by decide

theorem IsAddress.isLookup (h : IsAddress key) : IsLookup key :=
  ⟨fun hc => slash_not_mem_hexAlphabet (h.mem_hexAlphabet hc),
    fun hc => zero_not_mem_hexAlphabet (h.mem_hexAlphabet hc), by rw [h.utf8ByteSize]; decide⟩

theorem isPlain_of_hexAlphabet {name : String} (hne : name.toList ≠ [])
    (h : ∀ c ∈ name.toList, c ∈ Text.hexAlphabet) : IsPlain name := by
  have hdot : '.' ∉ name.toList := fun hc => dot_not_mem_hexAlphabet (h '.' hc)
  refine ⟨?_, ?_, ?_, fun hc => slash_not_mem_hexAlphabet (h '/' hc)⟩
  · rintro rfl
    exact hne rfl
  · rintro rfl
    exact hdot (by simp)
  · rintro rfl
    exact hdot (by simp)

theorem IsAddress.isPlain (h : IsAddress key) : IsPlain key :=
  isPlain_of_hexAlphabet h.toList_ne_nil fun _ hc => h.mem_hexAlphabet hc

theorem mem_shardOf {c : Char} (h : c ∈ (shardOf key).toList) : c ∈ key.toList := by
  rw [shardOf, String.toList_ofList] at h
  exact List.mem_of_mem_take h

theorem IsAddress.isPlain_shardOf (h : IsAddress key) : IsPlain (shardOf key) := by
  refine isPlain_of_hexAlphabet ?_ fun c hc => h.mem_hexAlphabet (mem_shardOf hc)
  rw [shardOf, String.toList_ofList]
  simpa using h.toList_ne_nil

theorem utf8ByteSize_shardOf (key : String) : (shardOf key).utf8ByteSize ≤ key.utf8ByteSize := by
  have hkey : shardOf key ++ String.ofList (key.toList.drop 2) = key := by
    rw [← String.toList_inj]
    simp [shardOf]
  have hsize := congrArg String.utf8ByteSize hkey
  rw [String.utf8ByteSize_append] at hsize
  omega

theorem isPlain_fileName (h : '/' ∉ id.toList) : IsPlain (id ++ ".json") := by
  -- The ending alone is longer than the names with a meaning of their own.
  have hlong : ∀ name : String, name.length ≤ 2 → id ++ ".json" ≠ name := by
    rintro name hname rfl
    rw [String.length_append] at hname
    have hending : (".json" : String).length = 5 := by decide
    omega
  refine ⟨hlong "" (by decide), hlong "." (by decide), hlong ".." (by decide), fun hc => ?_⟩
  rw [String.toList_append, List.mem_append] at hc
  exact hc.elim h (by decide)

theorem extension?_fileName (h : id.toList ≠ []) : extension? (id ++ ".json") = some "json" := by
  obtain ⟨front, last, hlast⟩ := (List.eq_nil_or_concat' id.toList).resolve_left h
  have hname : id ++ ".json" ≠ ".." := by
    intro heq
    have hchars := congrArg (fun s : String => s.toList.getLast?) heq
    simp at hchars
  simp [extension?, hlast, hname]

end Names

/-! ### Paths below the folder of a store -/

/-- The room for a path below the folder of a store: the folder of records, an id that can be looked
up, the ending of its file and two slashes. -/
def room : Nat := 214

/-- A path below the folder of a store that fits wherever the store is. -/
structure IsInside (path : List String) : Prop where
  plain : ∀ name ∈ path, IsPlain name
  no_zero : ∀ name ∈ path, Char.ofNat 0 ∉ name.toList
  size : (path.map fun name => name.utf8ByteSize + 1).sum ≤ room

/-- A folder that a store can be in. -/
structure IsHome (home : List String) : Prop where
  plain : ∀ name ∈ home, IsPlain name
  fits : Fits home
  room : (absolute home).utf8ByteSize + room ≤ maxPathSize

/-- Where the folders of a store are. -/
def IsFolderPath (path : List String) : Prop :=
  path.length ≤ 1 ∨ ∃ shard, path = [blobFolder, shard]

/-- Where the files of a store are. -/
def IsFilePath (path : List String) : Prop :=
  (∃ name, path = [recordFolder, name]) ∨ ∃ shard key, path = [blobFolder, shard, key]

section Paths

variable {home path : List String} {id key : String}

theorem IsHome.plain_append (h : IsHome home) (hpath : IsInside path) :
    ∀ name ∈ home ++ path, IsPlain name :=
  List.forall_mem_append.2 ⟨h.plain, hpath.plain⟩

theorem IsHome.fits_append (h : IsHome home) (hpath : IsInside path) : Fits (home ++ path) := by
  refine ⟨List.forall_mem_append.2 ⟨h.fits.name_size, fun name hname => ?_⟩, ?_, fun hzero => ?_⟩
  · have hsize : name.utf8ByteSize + 1 ≤ (path.map fun name => name.utf8ByteSize + 1).sum :=
      List.le_sum_of_mem (List.mem_map.2 ⟨name, hname, rfl⟩)
    have hroom : maxNameSize = 255 ∧ DirectoryStore.room = 214 := ⟨rfl, rfl⟩
    have hpath := hpath.size
    omega
  · have hsize := utf8ByteSize_absolute_append home path
    have hroom := h.room
    have hpath := hpath.size
    omega
  · rcases mem_toList_absolute hzero with hslash | ⟨name, hname, hzero⟩
    · cases hslash
    · rcases List.mem_append.1 hname with hname | hname
      · exact h.fits.no_zero (toList_absolute_of_mem hname hzero)
      · exact hpath.no_zero name hname hzero

theorem IsInside.front {front back : List String} (h : IsInside (front ++ back)) :
    IsInside front := by
  refine ⟨fun name hname => h.plain name (List.mem_append_left _ hname),
    fun name hname => h.no_zero name (List.mem_append_left _ hname), ?_⟩
  have hsize := h.size
  rw [List.map_append, List.sum_append] at hsize
  omega

theorem isPlain_folder {name : String} (h : name ∈ [stagingFolder, blobFolder, recordFolder]) :
    IsPlain name := by
  revert name
  decide

theorem isInside_folder {name : String} (h : name ∈ [stagingFolder, blobFolder, recordFolder]) :
    IsInside [name] := by
  refine ⟨List.forall_mem_singleton.2 (isPlain_folder h), ?_, ?_⟩
  · rw [List.forall_mem_singleton]
    revert name
    decide
  · revert name
    decide

theorem isInside_staged : IsInside [stagingFolder, "staged"] :=
  ⟨by decide, by decide, by decide⟩

theorem isPlain_recordPath (hid : '/' ∉ id.toList) :
    ∀ part ∈ [recordFolder, id ++ ".json"], IsPlain part := by
  simpa using ⟨isPlain_folder (by simp), isPlain_fileName hid⟩

theorem IsLookup.isInside (h : IsLookup id) : IsInside [recordFolder, id ++ ".json"] := by
  refine ⟨isPlain_recordPath h.no_slash, ?_, ?_⟩
  · have hrecord : Char.ofNat 0 ∉ recordFolder.toList := by decide
    simp [String.toList_append, hrecord, h.no_zero]
  · have hrecord : recordFolder.utf8ByteSize = 7 := by decide
    have hending : (".json" : String).utf8ByteSize = 5 := by decide
    have hsize := h.size
    simp only [List.map_cons, List.map_nil, List.sum_cons, List.sum_nil,
      String.utf8ByteSize_append, room]
    omega

theorem IsAddress.isInside (h : IsAddress key) : IsInside [blobFolder, shardOf key, key] := by
  have hzero : Char.ofNat 0 ∉ key.toList := h.isLookup.no_zero
  refine ⟨by simpa using ⟨isPlain_folder (by simp), h.isPlain_shardOf, h.isPlain⟩, ?_, ?_⟩
  · have hblob : Char.ofNat 0 ∉ blobFolder.toList := by decide
    have hshard : Char.ofNat 0 ∉ (shardOf key).toList := fun hc => hzero (mem_shardOf hc)
    simpa using ⟨hblob, hshard, hzero⟩
  · have hblob : blobFolder.utf8ByteSize = 5 := by decide
    have hshard := utf8ByteSize_shardOf key
    have hkey := h.utf8ByteSize
    simp only [List.map_cons, List.map_nil, List.sum_cons, List.sum_nil, room]
    omega

theorem isFilePath_record (name : String) : IsFilePath [recordFolder, name] :=
  .inl ⟨name, rfl⟩

theorem isFilePath_blob (shard key : String) : IsFilePath [blobFolder, shard, key] :=
  .inr ⟨shard, key, rfl⟩

theorem recordFolder_ne_blobFolder : recordFolder ≠ blobFolder := by decide

theorem IsFilePath.not_isFolderPath (h : IsFilePath path) : ¬ IsFolderPath path := by
  rintro (hlength | ⟨shard, rfl⟩)
  · rcases h with ⟨name, rfl⟩ | ⟨shard, key, rfl⟩
    · simp at hlength
    · simp at hlength
  · rcases h with ⟨name, hpath⟩ | ⟨shard, key, hpath⟩
    · exact recordFolder_ne_blobFolder (List.cons.inj hpath).1.symm
    · simp at hpath

/-- No file of a store is on the way to another one. -/
theorem IsFilePath.eq_of_prefix {other : List String} (h : IsFilePath path)
    (hother : IsFilePath other) (hstart : other <+: path) : other = path := by
  rcases h with ⟨name, rfl⟩ | ⟨shard, key, rfl⟩ <;>
    rcases hother with ⟨name', rfl⟩ | ⟨shard', key', rfl⟩
  · exact hstart.eq_of_length rfl
  · exact absurd (List.cons_prefix_cons.1 hstart).1.symm recordFolder_ne_blobFolder
  · exact absurd (List.cons_prefix_cons.1 hstart).1 recordFolder_ne_blobFolder
  · exact hstart.eq_of_length rfl

theorem IsFilePath.isFolderPath_front {front : List String} {last : String}
    (h : IsFilePath (front ++ [last])) {other : List String} (hother : other <+: front) :
    IsFolderPath other := by
  have hlength := hother.length_le
  rcases h with ⟨name, hpath⟩ | ⟨shard, key, hpath⟩
  · have hsplit : front ++ [last] = [recordFolder] ++ [name] := hpath
    obtain ⟨rfl, -⟩ := List.append_inj' hsplit rfl
    exact .inl hlength
  · have hsplit : front ++ [last] = [blobFolder, shard] ++ [key] := hpath
    obtain ⟨rfl, -⟩ := List.append_inj' hsplit rfl
    by_cases hfull : other.length = 2
    · exact .inr ⟨shard, hother.eq_of_length hfull⟩
    · exact .inl (Nat.le_of_lt_succ (Nat.lt_of_le_of_ne hlength hfull))

theorem IsFilePath.not_staged_prefix (h : IsFilePath path) :
    ¬ [stagingFolder, "staged"] <+: path := by
  intro hstart
  rcases h with ⟨name, rfl⟩ | ⟨shard, key, rfl⟩
  · exact absurd (List.cons_prefix_cons.1 hstart).1 (by decide)
  · exact absurd (List.cons_prefix_cons.1 hstart).1 (by decide)

theorem not_isFilePath_staged : ¬ IsFilePath [stagingFolder, "staged"] :=
  fun h => h.not_staged_prefix List.prefix_rfl

theorem not_isFolderPath_staged : ¬ IsFolderPath [stagingFolder, "staged"] := by
  rintro (hlength | ⟨shard, hpath⟩)
  · simp at hlength
  · exact absurd (List.cons.inj hpath).1 (by decide)

theorem isFolderPath_singleton (name : String) : IsFolderPath [name] :=
  .inl (Nat.le_refl 1)

end Paths

/-! ### The paths of files -/

section Files

variable {store : DirectoryStore} {home : List String} {id : String} {digest : ContentDigest}

theorem join_join_absolute {folder name : String} (hhome : IsHome home)
    (hplain : ∀ part ∈ [folder, name], IsPlain part) :
    join (join (absolute home) folder) name = absolute (home ++ [folder, name]) := by
  rw [List.forall_mem_cons, List.forall_mem_singleton] at hplain
  rw [join_absolute_name hhome.plain hplain.1,
    join_absolute_name (forall_isPlain_concat.2 ⟨hhome.plain, hplain.1⟩) hplain.2,
    List.append_assoc]
  rfl

theorem stagingPath_eq (hhome : IsHome home) (hstore : store.path = absolute home) :
    store.stagingPath = absolute (home ++ [stagingFolder, "staged"]) := by
  rw [stagingPath, hstore, join_join_absolute hhome isInside_staged.plain]

theorem recordPath_eq (hhome : IsHome home) (hstore : store.path = absolute home)
    (hid : '/' ∉ id.toList) :
    store.recordPath id = absolute (home ++ [recordFolder, id ++ ".json"]) := by
  rw [recordPath, hstore, join_join_absolute hhome (isPlain_recordPath hid)]

theorem blobPath_eq (hhome : IsHome home) (hstore : store.path = absolute home)
    (hdigest : IsAddress digest.toHex) :
    store.blobPath digest =
      absolute (home ++ [blobFolder, shardOf digest.toHex, digest.toHex]) := by
  have hinside : IsInside ([blobFolder, shardOf digest.toHex] ++ [digest.toHex]) :=
    hdigest.isInside
  have hplain := hhome.plain_append hinside.front
  have hshard : join (join store.path blobFolder)
      (String.ofList (digest.toHex.toList.take 2)) =
        absolute (home ++ [blobFolder, shardOf digest.toHex]) := by
    rw [hstore]
    exact join_join_absolute hhome hinside.front.plain
  have hpath : store.blobPath digest = join (join (join store.path blobFolder)
      (String.ofList (digest.toHex.toList.take 2))) digest.toHex := rfl
  rw [hpath, hshard, join_absolute_name hplain hdigest.isPlain, List.append_assoc]
  rfl

end Files

end InfraGraph.DirectoryStore
