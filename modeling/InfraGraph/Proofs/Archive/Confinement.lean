import InfraGraph.Proofs.Archive.Unpack

/-!
# Entries stay below the target

An archive may be unpacked on a system where backslashes separate names too, so being plain isn't
enough for the names in it.  Labels have both slashes replaced before they are looked at, and names
of attached files with either of them are refused.  No name in a generated archive leads anywhere
but down, whatever the ids, labels and file names of the graph are.
-/

namespace InfraGraph

/-- The name leads one folder down, whichever slash separates names. -/
structure Path.LeadsDown (part : String) : Prop extends Path.IsPlain part where
  no_backslash : '\\' ∉ part.toList

/-! ### Where names come from -/

theorem leadsDown_sanitizeLabel {label : String} (h : isUsableName (sanitizeLabel label) = true) :
    Path.LeadsDown (sanitizeLabel label) :=
  ⟨isPlain_sanitizeLabel h, not_mem_sanitizeLabel_of_separator label (.inr rfl)⟩

theorem leadsDown_directoryParts {lineage : List Node}
    (h : ∀ node ∈ lineage, node.HasUsableLabel) :
    ∀ part ∈ directoryParts lineage, Path.LeadsDown part :=
  forall_mem_directoryParts (fun _ => leadsDown_sanitizeLabel) h

theorem NodeType.leadsDown_outputFileName (t : NodeType) : Path.LeadsDown t.outputFileName :=
  ⟨t.isPlain_outputFileName, by cases t <;> simp [outputFileName, defaultFileName]⟩

theorem Attachment.leadsDown_of_isValidName {name : String} (h : isValidName name = true) :
    Path.LeadsDown name := by
  refine ⟨isPlain_of_isValidName h, fun hmem => ?_⟩
  simp only [isValidName, Bool.and_eq_true, decide_eq_true_eq, List.all_eq_true] at h
  exact (h.2 '\\' hmem).1.2 rfl

theorem Node.leadsDown_fileNames {node : Node}
    (h : ∀ file ∈ node.files, Attachment.isValidName file.fileName = true) :
    ∀ name ∈ node.fileNames, Path.LeadsDown name := by
  intro name hname
  rcases mem_fileNames.1 hname with ⟨_, rfl⟩ | ⟨file, hfile, rfl⟩
  · exact node.type.leadsDown_outputFileName
  · exact Attachment.leadsDown_of_isValidName (h file hfile)

/-! ### Entries -/

namespace ArchiveEntry

/-- The name of an entry is made of names that lead down, with a slash at the end of a
directory. -/
structure StaysBelow (entry : ArchiveEntry) (parts : List String) : Prop where
  ne_nil : parts ≠ []
  leadsDown : ∀ part ∈ parts, Path.LeadsDown part
  name : entry.name = Path.unsplit parts ++ if entry.contents = none then "/" else ""

/-- An entry that stays below the target can't have a name that starts at the root. -/
theorem StaysBelow.isAbsolute {entry : ArchiveEntry} {parts : List String}
    (h : entry.StaysBelow parts) : Path.isAbsolute entry.name = false := by
  have hplain : ∀ part ∈ parts, Path.IsPlain part := fun part hpart =>
    (h.leadsDown part hpart).toIsPlain
  rw [h.name, Path.isAbsolute_append (Path.unsplit_ne_empty h.ne_nil hplain),
    Path.isAbsolute_unsplit hplain]

end ArchiveEntry

namespace Archive

section Generated

variable {σ : Type} [AttachmentStore σ] {store : σ} {moduleBase : String} {g : Graph}
  {paths : PathMap}

theorem exists_leadsDown_of_mem_values {nodes : List Node} (h : resolvePaths nodes = .ok paths)
    {path : String} (hmem : path ∈ paths.values) :
    ∃ parts, parts ≠ [] ∧ (∀ part ∈ parts, Path.LeadsDown part) ∧ path = Path.unsplit parts := by
  obtain ⟨id, hfind⟩ := SortedMap.mem_values_iff.1 hmem
  obtain ⟨node, above, hlineage, hroot, _, hpath⟩ := exists_lineage_of_find? h hfind
  exact ⟨_, directoryParts_ne_nil hroot,
    leadsDown_directoryParts (hasUsableLabel_of_resolvePaths h hlineage), hpath⟩

theorem exists_staysBelow (h : IsGenerable store moduleBase g paths) {entry : ArchiveEntry}
    (hentry : entry ∈ (ofPlan store moduleBase g paths).entries) :
    ∃ parts, entry.StaysBelow parts := by
  rcases cases_of_mem_entries h hentry with
    ⟨path, hpath, rfl⟩ | rfl | ⟨placed, hplaced, name, hname, contents, rfl⟩
  · obtain ⟨parts, hne, hdown, rfl⟩ := exists_leadsDown_of_mem_values h.resolved hpath
    exact ⟨parts, hne, hdown, rfl⟩
  · refine ⟨[NodeType.defaultFileName], by simp, ?_, ?_⟩
    · rw [List.forall_mem_singleton]
      exact NodeType.leadsDown_outputFileName .root
    · simp [Path.unsplit_singleton]
  · obtain ⟨front, hne, hdown, hfront⟩ :=
      exists_leadsDown_of_mem_values h.resolved (mem_values_of_mem_placedNodes hplaced)
    refine ⟨front ++ [name], by simp, ?_, ?_⟩
    · rw [List.forall_mem_append, List.forall_mem_singleton]
      exact ⟨hdown, Node.leadsDown_fileNames (h.valid placed hplaced) name hname⟩
    · simp [hfront, Path.unsplit_concat hne]

/-- No entry of a generated archive leads out of the folder that it is unpacked into.  Nothing is
asked of the graph, whose ids may even repeat. -/
theorem ofGraph_staysBelow {archive : Archive} (h : ofGraph store moduleBase g = .ok archive) :
    ∀ entry ∈ archive.entries,
      Path.isAbsolute entry.name = false ∧ ∃ parts, entry.StaysBelow parts := by
  obtain ⟨paths, hgenerable, rfl⟩ := ofGraph_eq_ok_iff.1 h
  intro entry hentry
  obtain ⟨parts, hbelow⟩ := exists_staysBelow hgenerable hentry
  exact ⟨hbelow.isAbsolute, parts, hbelow⟩

end Generated

end Archive

/-- The archive of the two modules stays below the folder that it is unpacked into. -/
theorem TwoModules.archive_staysBelow :
    ∃ archive, Archive.ofGraph store ModuleSource.defaultBase graph = .ok archive ∧
      ∀ entry ∈ archive.entries,
        Path.isAbsolute entry.name = false ∧ ∃ parts, entry.StaysBelow parts := by
  obtain ⟨archive, harchive⟩ := exists_archive ModuleSource.defaultBase
  exact ⟨archive, harchive, Archive.ofGraph_staysBelow harchive⟩

end InfraGraph
