import InfraGraph.Proofs.Hcl.Written

/-!
# Reading bodies

A body comes back part by part.  A part is a text that is read as an attribute or a block wherever
it stands on lines of its own; the body of a block is read line by line.
-/

namespace InfraGraph.Hcl

/-! ### Attributes -/

/-- The value behind a key is read as far as it goes. -/
theorem readValue_append {value : List Char} {e : Expression} (h : ReadsAs value ['\n'] e)
    (rest : List Char) :
    readValue ([' ', '=', ' '] ++ (value ++ (['\n'] ++ rest))) = some (e, '\n' :: rest) := by
  have hskip : skipBlanks false ([' ', '=', ' '] ++ (value ++ (['\n'] ++ rest))) =
      '=' :: ' ' :: (value ++ (['\n'] ++ rest)) := by
    simp [skipBlanks_of_isSolid (show IsSolid '=' by decide)]
  have hsolid : skipBlanks false (' ' :: (value ++ (['\n'] ++ rest))) =
      value ++ (['\n'] ++ rest) := by
    rw [skipBlanks_space, h.solid]
  rw [readValue, hskip]
  change readWholeExpression (skipBlanks false (' ' :: (value ++ (['\n'] ++ rest)))) = _
  rw [hsolid]
  exact h.reads _ rest (by rw [List.length_append]; omega)

theorem readStructure_attribute {key : String} {value : List Char} {e : Expression}
    (hkey : IsIdentifier key.toList) (hvalue : ReadsAs value ['\n'] e) (fuel : Nat)
    (rest : List Char) :
    readStructure (fuel + 1) (key.toList ++ ([' ', '=', ' '] ++ (value ++ (['\n'] ++ rest)))) =
      some (.attribute key e, '\n' :: rest) := by
  have hread := @readIdentifier_append key hkey
    ([' ', '=', ' '] ++ (value ++ (['\n'] ++ rest))) (by simp; decide)
  have hskip : skipBlanks false ([' ', '=', ' '] ++ (value ++ (['\n'] ++ rest))) =
      '=' :: ' ' :: (value ++ (['\n'] ++ rest)) := by
    simp [skipBlanks_of_isSolid (show IsSolid '=' by decide)]
  rw [readStructure, hread]
  simp only [Option.bind_eq_bind, Option.bind_some, hskip, readValue_append hvalue]
  rfl

/-! ### Lines of a block -/

section Lines

variable {values : String → Expression} {entry : String × String}
  {entries : List (String × String)} {indent : Nat} {closing after : List Char}

/-- The attributes that lines of definitions are read as. -/
def attributesOf (values : String → Expression) (entries : List (String × String)) : Body :=
  entries.map fun entry => .attribute entry.1 (values entry.2)

theorem attributesOf_cons :
    attributesOf values (entry :: entries) =
      .attribute entry.1 (values entry.2) :: attributesOf values entries := rfl

theorem attributes_attributesOf :
    (attributesOf values entries).attributes =
      entries.map fun entry => (entry.1, values entry.2) := by
  rw [Body.attributes, attributesOf, List.filterMap_map]
  exact congrFun List.filterMap_eq_map' entries

/-- An attribute with a new key is added. -/
theorem addStructure_attribute {key : String} {body : Body}
    (h : key ∉ body.attributes.map (·.1)) (e : Expression) :
    addStructure (.attribute key e) body = some (.attribute key e :: body) := by
  have hnone : ¬ hasAttribute key body = true := by
    simp only [hasAttribute, List.any_eq_true, decide_eq_true_eq]
    rintro ⟨entry, hentry, rfl⟩
    exact h (List.mem_map.2 ⟨entry, hentry, rfl⟩)
  rw [addStructure, if_neg hnone]

/-- A part of a body that starts with an identifier is taken off, up to its line end. -/
theorem readBody_cons {cs rest : List Char} {part : Structure} {body : Body} {fuel : Nat}
    {first : Char} {more : List Char} (hcs : skipBlanks true cs = first :: more)
    (hfirst : Text.isIdentifierStart first = true)
    (hpart : readStructure fuel (first :: more) = some (part, '\n' :: rest))
    (hrest : readBody fuel rest = some (body, after))
    (hadd : addStructure part body = some (part :: body)) :
    readBody (fuel + 1) cs = some (part :: body, after) := by
  have hbrace : first ≠ '\x7d' := by
    rintro rfl
    exact Bool.false_ne_true (hfirst.symm.trans (by decide)).symm
  rw [readBody, hcs]
  split
  · rename_i hnil
    cases hnil
  · rename_i rest' hcons
    exact absurd (List.cons.inj hcons).1 hbrace
  · simp only [hpart, Option.bind_eq_bind, Option.bind_some, skipToNextLine?_newline, hrest, hadd]
    rfl

/-- The lines of a block come back one by one. -/
theorem readBody_lines
    (hkeys : ∀ entry ∈ entries, IsIdentifier entry.1.toList)
    (hnodup : (entries.map (·.1)).Nodup)
    (hvalues : ∀ entry ∈ entries, ReadsAs entry.2.toList ['\n'] (values entry.2))
    (hclosing : skipBlanks true closing = '\x7d' :: after) {fuel : Nat}
    (hfuel : entries.length < fuel) :
    readBody fuel (entries.flatMap (definitionLine indent) ++ closing) =
      some (attributesOf values entries, '\x7d' :: after) := by
  obtain ⟨fuel, rfl⟩ : ∃ n, fuel = n + 1 := ⟨fuel - 1, by omega⟩
  induction entries generalizing fuel with
  | nil => rw [List.flatMap_nil, List.nil_append, readBody, hclosing]; rfl
  | cons entry entries ih =>
      obtain ⟨hkey, hkeys⟩ := List.forall_mem_cons.1 hkeys
      obtain ⟨hvalue, hvalues⟩ := List.forall_mem_cons.1 hvalues
      obtain ⟨first, more, hcs, hfirst⟩ := hkey.exists_cons
      rw [List.length_cons] at hfuel
      obtain ⟨fuel, rfl⟩ : ∃ n, fuel = n + 1 := ⟨fuel - 1, by omega⟩
      have hstructure := readStructure_attribute hkey hvalue fuel
        (entries.flatMap (definitionLine indent) ++ closing)
      have hrest := ih hkeys (List.nodup_cons.1 hnodup).2 hvalues fuel (by omega)
      rw [hcs, List.cons_append] at hstructure
      rw [attributesOf_cons]
      refine readBody_cons ?_ hfirst hstructure hrest ?_
      · rw [List.flatMap_cons, List.append_assoc, definitionLine_append, skipBlanks_indent, hcs,
          List.cons_append, skipBlanks_of_isSolid (isSolid_of_isIdentifierStart hfirst)]
      · refine addStructure_attribute ?_ _
        rw [attributes_attributesOf, List.map_map]
        exact (List.nodup_cons.1 hnodup).1

end Lines

/-! ### Blocks -/

/-- The labels of a block, each between quotes. -/
def labelsText (labels : List String) : List Char :=
  labels.flatMap fun label => [' ', '"'] ++ (label.toList ++ ['"'])

theorem length_le_labelsText (labels : List String) :
    labels.length ≤ (labelsText labels).length := by
  induction labels with
  | nil => exact Nat.zero_le _
  | cons label labels ih =>
      rw [labelsText] at ih ⊢
      simp only [List.flatMap_cons, List.length_append, List.length_cons, List.length_nil]
      omega

theorem readLabels_labelsText {labels : List String}
    (h : ∀ label ∈ labels, IsVerbatim label.toList) {fuel : Nat} (hfuel : labels.length < fuel)
    (rest : List Char) :
    readLabels fuel (labelsText labels ++ ([' ', '\x7b'] ++ rest)) = some (labels, rest) := by
  obtain ⟨fuel, rfl⟩ : ∃ n, fuel = n + 1 := ⟨fuel - 1, by omega⟩
  induction labels generalizing fuel with
  | nil =>
      simp [labelsText, readLabels, skipBlanks_of_isSolid (show IsSolid '\x7b' by decide)]
  | cons label labels ih =>
      obtain ⟨hlabel, hlabels⟩ := List.forall_mem_cons.1 h
      rw [List.length_cons] at hfuel
      obtain ⟨fuel, rfl⟩ : ∃ n, fuel = n + 1 := ⟨fuel - 1, by omega⟩
      have hrest := ih hlabels fuel (by omega)
      have htext : labelsText (label :: labels) ++ ([' ', '\x7b'] ++ rest) = ' ' :: '"' ::
          (label.toList ++ '"' :: (labelsText labels ++ ([' ', '\x7b'] ++ rest))) := by
        simp [labelsText]
      rw [htext, readLabels, skipBlanks_space, skipBlanks_of_isSolid (by decide)]
      have hpieces := @IsVerbatim.readPieces_eq _ hlabel
        ((label.toList ++ '"' :: (labelsText labels ++ ([' ', '\x7b'] ++ rest))).length + 1)
        (by rw [List.length_append]; omega) false (labelsText labels ++ ([' ', '\x7b'] ++ rest))
      simp only [hpieces, Option.bind_eq_bind, Option.bind_some, Piece.plain?_ofText,
        afterText?_singleton, hrest, String.ofList_toList]
      rfl

section Blocks

variable {values : String → Expression} {type : String} {labels : List String}
  {entries : List (String × String)} {indent : Nat}

/-- The text of a block with a definition on each line.  Blank lines may follow the last one. -/
def blockText (type : String) (labels : List String) (indent : Nat)
    (entries : List (String × String)) (blank : List Char) : List Char :=
  type.toList ++ (labelsText labels ++ ([' ', '\x7b', '\n'] ++
    (entries.flatMap (definitionLine indent) ++ (blank ++ ['\x7d']))))

theorem readBlockBody_newline {cs after : List Char} {body : Body} {fuel : Nat}
    (h : readBody fuel cs = some (body, '\x7d' :: after)) :
    readBlockBody (fuel + 1) ('\n' :: cs) = some (body, after) := by
  rw [readBlockBody, skipBlanks_line_end]
  split
  · simp_all
  · simp only [skipToNextLine?_newline, h, Option.bind_eq_bind, Option.bind_some,
      afterText?_singleton]
    rfl

theorem readStructure_block (htype : IsIdentifier type.toList)
    (hlabels : ∀ label ∈ labels, IsVerbatim label.toList)
    (hkeys : ∀ entry ∈ entries, IsIdentifier entry.1.toList)
    (hnodup : (entries.map (·.1)).Nodup)
    (hvalues : ∀ entry ∈ entries, ReadsAs entry.2.toList ['\n'] (values entry.2))
    {blank : List Char} (hblank : ∀ rest, skipBlanks true (blank ++ rest) = skipBlanks true rest)
    {fuel : Nat} (hfuel : entries.length + 2 < fuel) (rest : List Char) :
    readStructure fuel (blockText type labels indent entries blank ++ rest) =
      some (.block type labels (attributesOf values entries), rest) := by
  obtain ⟨fuel, rfl⟩ : ∃ n, fuel = n + 2 := ⟨fuel - 2, by omega⟩
  have hbody := @readBody_lines values entries indent (blank ++ '\x7d' :: rest) rest hkeys hnodup
    hvalues (by rw [hblank, skipBlanks_of_isSolid (by decide)]) fuel (by omega)
  generalize hlines : entries.flatMap (definitionLine indent) ++ (blank ++ '\x7d' :: rest) = lines
    at hbody
  have htext : blockText type labels indent entries blank ++ rest =
      type.toList ++ (labelsText labels ++ ([' ', '\x7b'] ++ '\n' :: lines)) := by
    simp [blockText, ← hlines]
  have hname := @readIdentifier_append type htype
    (labelsText labels ++ ([' ', '\x7b'] ++ '\n' :: lines)) (by
      cases labels <;> simp [labelsText] <;> decide)
  have hread := @readLabels_labelsText labels hlabels
    ((labelsText labels ++ ([' ', '\x7b'] ++ '\n' :: lines)).length + 1) (by
      have hlength := length_le_labelsText labels
      rw [List.length_append]
      omega) ('\n' :: lines)
  have hequals : ∀ after, skipBlanks false (labelsText labels ++ ([' ', '\x7b'] ++ '\n' :: lines)) ≠
      '=' :: after := by
    cases labels with
    | nil => simp [labelsText, skipBlanks_of_isSolid (show IsSolid '\x7b' by decide)]
    | cons label labels =>
        simp [labelsText, skipBlanks_of_isSolid (show IsSolid '"' by decide)]
  rw [htext, readStructure, hname]
  simp only [Option.bind_eq_bind, Option.bind_some, hread, readBlockBody_newline hbody]
  rfl

end Blocks

/-! ### Parts of a body -/

/-- A text that is read as a part of a body wherever it stands in front of a line end. -/
structure IsPart (text : List Char) (part : Structure) : Prop where
  starts : ∃ first more, text = first :: more ∧ Text.isIdentifierStart first = true
  reads : ∀ fuel rest, text.length < fuel →
    readStructure fuel (text ++ '\n' :: rest) = some (part, '\n' :: rest)

theorem isPart_attribute {key : String} {value : List Char} {e : Expression}
    (hkey : IsIdentifier key.toList) (hvalue : ReadsAs value ['\n'] e) :
    IsPart (key.toList ++ ([' ', '=', ' '] ++ value)) (.attribute key e) := by
  obtain ⟨first, more, hcs, hfirst⟩ := hkey.exists_cons
  refine ⟨⟨first, more ++ ([' ', '=', ' '] ++ value), by rw [hcs, List.cons_append], hfirst⟩,
    fun fuel rest hfuel => ?_⟩
  obtain ⟨fuel, rfl⟩ : ∃ n, fuel = n + 1 := ⟨fuel - 1, by omega⟩
  have hread := readStructure_attribute hkey hvalue fuel rest
  rwa [List.append_assoc, List.append_assoc]

theorem length_le_definitionLines (indent : Nat) (entries : List (String × String)) :
    entries.length ≤ (entries.flatMap (definitionLine indent)).length := by
  induction entries with
  | nil => exact Nat.zero_le _
  | cons entry entries ih =>
      rw [List.flatMap_cons, List.length_append, List.length_cons, length_definitionLine]
      omega

theorem isPart_block {values : String → Expression} {type : String} {labels : List String}
    {entries : List (String × String)} (indent : Nat) {blank : List Char}
    (htype : IsIdentifier type.toList) (hlabels : ∀ label ∈ labels, IsVerbatim label.toList)
    (hkeys : ∀ entry ∈ entries, IsIdentifier entry.1.toList)
    (hnodup : (entries.map (·.1)).Nodup)
    (hvalues : ∀ entry ∈ entries, ReadsAs entry.2.toList ['\n'] (values entry.2))
    (hblank : ∀ rest, skipBlanks true (blank ++ rest) = skipBlanks true rest) :
    IsPart (blockText type labels indent entries blank)
      (.block type labels (attributesOf values entries)) := by
  obtain ⟨first, more, hcs, hfirst⟩ := htype.exists_cons
  refine ⟨⟨first, _, by rw [blockText, hcs, List.cons_append], hfirst⟩, fun fuel rest hfuel => ?_⟩
  have hlength := length_le_definitionLines indent entries
  simp only [blockText, List.length_append, List.length_cons, List.length_nil] at hfuel
  exact readStructure_block htype hlabels hkeys hnodup hvalues hblank (by omega) _

/-- Parts with blank lines between them. -/
def bodyText (parts : List (List Char × Structure)) : List Char :=
  parts.flatMap fun part => '\n' :: (part.1 ++ ['\n'])

/-- A part can be added to a body if no attribute comes twice. -/
theorem nodup_attributes_cons {part : Structure} {body : Body}
    (h : ((Body.attributes (part :: body)).map (·.1)).Nodup) :
    (body.attributes.map (·.1)).Nodup ∧ addStructure part body = some (part :: body) := by
  obtain ⟨key, e⟩ | ⟨type, labels, inner⟩ := part
  · obtain ⟨hkey, hbody⟩ := List.nodup_cons.1 h
    exact ⟨hbody, addStructure_attribute hkey e⟩
  · exact ⟨h, rfl⟩

theorem readBody_bodyText {parts : List (List Char × Structure)}
    (hparts : ∀ part ∈ parts, IsPart part.1 part.2)
    (hnodup : ((Body.attributes (parts.map (·.2))).map (·.1)).Nodup) {fuel : Nat}
    (hfuel : (bodyText parts).length < fuel) :
    readBody fuel (bodyText parts) = some (parts.map (·.2), []) := by
  obtain ⟨fuel, rfl⟩ : ∃ n, fuel = n + 1 := ⟨fuel - 1, by omega⟩
  induction parts generalizing fuel with
  | nil => rfl
  | cons part parts ih =>
      obtain ⟨hpart, hrest⟩ := List.forall_mem_cons.1 hparts
      obtain ⟨first, more, hcs, hfirst⟩ := hpart.starts
      have htext : bodyText (part :: parts) =
          '\n' :: (part.1 ++ '\n' :: bodyText parts) := by
        simp [bodyText]
      rw [htext, List.length_cons, List.length_append, List.length_cons] at hfuel
      obtain ⟨fuel, rfl⟩ : ∃ n, fuel = n + 1 := ⟨fuel - 1, by omega⟩
      have hread := hpart.reads (fuel + 1) (bodyText parts) (by omega)
      rw [hcs, List.cons_append] at hread
      obtain ⟨hkeys, hadd⟩ := nodup_attributes_cons hnodup
      rw [htext, List.map_cons]
      refine readBody_cons ?_ hfirst hread (ih hrest hkeys fuel (by omega)) hadd
      rw [skipBlanks_newline, hcs, List.cons_append,
        skipBlanks_of_isSolid (isSolid_of_isIdentifierStart hfirst)]

theorem readBody_of_skipBlanks_eq {cs cs' : List Char}
    (h : skipBlanks true cs = skipBlanks true cs') (fuel : Nat) :
    readBody fuel cs = readBody fuel cs' := by
  cases fuel with
  | zero => rfl
  | succ fuel => rw [readBody, readBody, h]

/-- A file that starts with a comment is read as its parts. -/
theorem parse?_eq {text : String} {comment : List Char} {parts : List (List Char × Structure)}
    (htext : text.toList = '#' :: comment ++ '\n' :: '\n' :: bodyText parts)
    (hcomment : ∀ c ∈ comment, c ≠ '\n' ∧ c ≠ '\r')
    (hparts : ∀ part ∈ parts, IsPart part.1 part.2)
    (hnodup : ((Body.attributes (parts.map (·.2))).map (·.1)).Nodup) :
    parse? text = some (parts.map (·.2)) := by
  have hread : readBody (4 * text.toList.length + 8) text.toList = some (parts.map (·.2), []) := by
    have hskip : skipBlanks true text.toList = skipBlanks true (bodyText parts) := by
      rw [htext, skipBlanks_comment hcomment, skipBlanks_newline]
    have hlength : (bodyText parts).length ≤ text.toList.length := by
      rw [htext, List.length_append, List.length_cons, List.length_cons, List.length_cons]
      omega
    rw [readBody_of_skipBlanks_eq hskip]
    exact readBody_bodyText hparts hnodup (by omega)
  simp only [parse?, hread]

end InfraGraph.Hcl
