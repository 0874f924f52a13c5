import Mathlib.Data.List.Induction
import Mathlib.Tactic.Common
import InfraGraph.Path

/-!
# Taking paths apart and putting them together

Splitting at slashes undoes joining with slashes, as long as no part holds a slash.  Parts that are
also neither empty nor dots are the names that directories and files can have: for lists of them the
joined text says which list it came from, and taking components leaves it as it is.
-/

namespace InfraGraph.Path

/-! ### Pieces of a list of characters -/

@[simp] theorem pieces_nil : pieces [] = [[]] := rfl

@[simp] theorem pieces_slash_cons (cs : List Char) : pieces ('/' :: cs) = [] :: pieces cs := by
  simp [pieces]

theorem pieces_ne_nil (cs : List Char) : pieces cs ≠ [] := by
  cases cs with
  | nil => simp
  | cons c rest =>
      unfold pieces
      split
      · simp
      · split <;> simp

/-- A slash between two texts separates their pieces. -/
theorem pieces_append_slash (xs ys : List Char) :
    pieces (xs ++ '/' :: ys) = pieces xs ++ pieces ys := by
  induction xs with
  | nil => simp
  | cons c rest ih =>
      by_cases hc : c = '/'
      · subst hc
        simp [ih]
      · obtain ⟨piece, more, hpieces⟩ := List.exists_cons_of_ne_nil (pieces_ne_nil rest)
        simp [pieces, hc, ih, hpieces]

theorem pieces_of_not_mem {cs : List Char} (h : '/' ∉ cs) : pieces cs = [cs] := by
  induction cs with
  | nil => rfl
  | cons c rest ih =>
      have hc : c ≠ '/' := fun hc => h (by simp [hc])
      have hrest : '/' ∉ rest := fun hrest => h (List.mem_cons_of_mem _ hrest)
      simp [pieces, hc, ih hrest]

theorem slash_not_mem_of_mem_pieces {cs piece : List Char} (h : piece ∈ pieces cs) :
    '/' ∉ piece := by
  induction cs generalizing piece with
  | nil => simp_all
  | cons c rest ih =>
      by_cases hc : c = '/'
      · subst hc
        rw [pieces_slash_cons, List.mem_cons] at h
        rcases h with rfl | h
        · exact List.not_mem_nil
        · exact ih h
      · obtain ⟨first, more, hpieces⟩ := List.exists_cons_of_ne_nil (pieces_ne_nil rest)
        simp only [pieces, hc, if_false, hpieces, List.mem_cons] at h
        rw [hpieces] at ih
        rcases h with rfl | h
        · rw [List.mem_cons, not_or]
          exact ⟨Ne.symm hc, ih List.mem_cons_self⟩
        · exact ih (List.mem_cons_of_mem _ h)

/-! ### Splitting and joining -/

theorem split_append_slash (a b : String) : split (a ++ "/" ++ b) = split a ++ split b := by
  have hchars : (a ++ "/" ++ b).toList = a.toList ++ '/' :: b.toList := by simp
  rw [split, hchars, pieces_append_slash, List.map_append]
  rfl

theorem split_of_not_mem {part : String} (h : '/' ∉ part.toList) : split part = [part] := by
  simp [split, pieces_of_not_mem h]

theorem slash_not_mem_of_mem_split {path part : String} (h : part ∈ split path) :
    '/' ∉ part.toList := by
  obtain ⟨piece, hpiece, rfl⟩ := List.mem_map.1 h
  rw [String.toList_ofList]
  exact slash_not_mem_of_mem_pieces hpiece

theorem split_ne_nil (path : String) : split path ≠ [] := by
  simp [split, pieces_ne_nil]

@[simp] theorem unsplit_nil : unsplit [] = "" := by
  simp [unsplit]

@[simp] theorem unsplit_singleton (part : String) : unsplit [part] = part := by
  simp [unsplit]

theorem unsplit_cons {part : String} {parts : List String} (h : parts ≠ []) :
    unsplit (part :: parts) = part ++ "/" ++ unsplit parts :=
  String.intercalate_cons_of_ne_nil h

theorem unsplit_append {a b : List String} (ha : a ≠ []) (hb : b ≠ []) :
    unsplit (a ++ b) = unsplit a ++ "/" ++ unsplit b :=
  String.intercalate_append_of_ne_nil ha hb

theorem unsplit_concat {parts : List String} (hne : parts ≠ []) (name : String) :
    unsplit (parts ++ [name]) = unsplit parts ++ "/" ++ name := by
  rw [unsplit_append hne (List.cons_ne_nil _ _), unsplit_singleton]

theorem split_unsplit {parts : List String} (hne : parts ≠ [])
    (h : ∀ part ∈ parts, '/' ∉ part.toList) : split (unsplit parts) = parts := by
  induction parts with
  | nil => exact absurd rfl hne
  | cons part rest ih =>
      have hpart : split part = [part] := split_of_not_mem (h part (by simp))
      by_cases hrest : rest = []
      · simp [hrest, hpart]
      · rw [unsplit_cons hrest, split_append_slash, hpart,
          ih hrest fun p hp => h p (List.mem_cons_of_mem _ hp)]
        rfl

theorem unsplit_split (path : String) : unsplit (split path) = path := by
  suffices h : ∀ cs : List Char, unsplit ((pieces cs).map String.ofList) = String.ofList cs by
    simpa [split] using h path.toList
  intro cs
  induction cs with
  | nil => simp
  | cons c rest ih =>
      obtain ⟨piece, more, hpieces⟩ := List.exists_cons_of_ne_nil (pieces_ne_nil rest)
      by_cases hc : c = '/'
      · subst hc
        rw [pieces_slash_cons, List.map_cons, unsplit_cons (by simp [pieces_ne_nil]), ih]
        rw [← String.toList_inj]
        simp
      · rw [hpieces, List.map_cons] at ih
        simp only [pieces, hc, if_false, hpieces, List.map_cons]
        by_cases hmore : more = []
        · subst hmore
          simp only [List.map_nil, unsplit_singleton] at ih ⊢
          rw [← String.toList_inj] at ih ⊢
          simpa using ih
        · rw [unsplit_cons (by simpa using hmore)] at ih ⊢
          rw [← String.toList_inj] at ih ⊢
          simpa using ih

/-! ### Names -/

/-- A part of a path that can be the name of a file or directory. -/
structure IsPlain (part : String) : Prop where
  ne_empty : part ≠ ""
  ne_dot : part ≠ "."
  ne_dotDot : part ≠ ".."
  no_slash : '/' ∉ part.toList

instance (part : String) : Decidable (IsPlain part) :=
  decidable_of_iff (part ≠ "" ∧ part ≠ "." ∧ part ≠ ".." ∧ '/' ∉ part.toList)
    ⟨fun h => ⟨h.1, h.2.1, h.2.2.1, h.2.2.2⟩,
      fun h => ⟨h.ne_empty, h.ne_dot, h.ne_dotDot, h.no_slash⟩⟩

theorem IsPlain.split {part : String} (h : IsPlain part) : split part = [part] :=
  split_of_not_mem h.no_slash

theorem IsPlain.ne_slash {part : String} (h : IsPlain part) : part ≠ "/" := by
  rintro rfl
  exact h.no_slash (by simp)

theorem IsPlain.isName {part : String} (h : IsPlain part) : isName part = true := by
  simp [Path.isName, h.ne_slash, h.ne_dot, h.ne_dotDot]

theorem forall_isPlain_concat {parts : List String} {name : String} :
    (∀ part ∈ parts ++ [name], IsPlain part) ↔ (∀ part ∈ parts, IsPlain part) ∧ IsPlain name := by
  rw [List.forall_mem_append, List.forall_mem_singleton]

theorem IsPlain.head?_ne_slash {part : String} (h : IsPlain part) :
    part.toList.head? ≠ some '/' := by
  intro hhead
  exact h.no_slash (List.mem_of_head? hhead)

theorem split_unsplit_of_plain {parts : List String} (hne : parts ≠ [])
    (h : ∀ part ∈ parts, IsPlain part) : split (unsplit parts) = parts :=
  split_unsplit hne fun part hpart => (h part hpart).no_slash

/-- A path of names doesn't end in a slash. -/
theorem getLast?_unsplit_ne_slash {parts : List String} (hne : parts ≠ [])
    (h : ∀ part ∈ parts, IsPlain part) :
    (unsplit parts).toList.getLast? ≠ some '/' := by
  intro hend
  obtain ⟨cs, hcs⟩ := List.getLast?_eq_some_iff.1 hend
  have hsplit : unsplit parts = String.ofList cs ++ "/" ++ "" := by
    rw [← String.toList_inj]
    simp [hcs]
  have hmem : "" ∈ parts := by
    rw [← split_unsplit_of_plain hne h, hsplit, split_append_slash]
    simp [split]
  exact (h "" hmem).ne_empty rfl

theorem unsplit_ne_empty {parts : List String} (hne : parts ≠ [])
    (h : ∀ part ∈ parts, IsPlain part) : unsplit parts ≠ "" := by
  intro hempty
  have hsplit := split_unsplit_of_plain hne h
  rw [hempty] at hsplit
  have hmem : "" ∈ parts := by
    rw [← hsplit]
    simp [Path.split]
  exact (h "" hmem).ne_empty rfl

/-- Lists of names are told apart by the texts they make. -/
theorem unsplit_inj {a b : List String} (ha : ∀ part ∈ a, IsPlain part)
    (hb : ∀ part ∈ b, IsPlain part) (h : unsplit a = unsplit b) : a = b := by
  by_cases hane : a = []
  · by_contra hne
    have hbne : b ≠ [] := fun hb => hne (hane.trans hb.symm)
    exact unsplit_ne_empty hbne hb (by rw [← h, hane, unsplit_nil])
  · by_cases hbne : b = []
    · exact absurd (by rw [h, hbne, unsplit_nil]) (unsplit_ne_empty hane ha)
    · rw [← split_unsplit_of_plain hane ha, h, split_unsplit_of_plain hbne hb]

/-- A path whose first part isn't empty does not start at the root. -/
theorem isAbsolute_unsplit_cons {part : String} (rest : List String) (hne : part ≠ "")
    (hslash : '/' ∉ part.toList) : isAbsolute (unsplit (part :: rest)) = false := by
  have hhead : (unsplit (part :: rest)).toList.head? = part.toList.head? := by
    obtain ⟨c, cs, hcs⟩ := List.exists_cons_of_ne_nil (l := part.toList) (by simpa using hne)
    by_cases hrest : rest = []
    · simp [hrest]
    · rw [unsplit_cons hrest]
      simp [hcs]
  rw [isAbsolute, hhead, decide_eq_false_iff_not]
  exact fun hhead => hslash (List.mem_of_head? hhead)

theorem isAbsolute_unsplit {parts : List String} (h : ∀ part ∈ parts, IsPlain part) :
    isAbsolute (unsplit parts) = false := by
  cases parts with
  | nil => simp [isAbsolute]
  | cons part rest =>
      have hpart : IsPlain part := h part (by simp)
      exact isAbsolute_unsplit_cons rest hpart.ne_empty hpart.no_slash

/-- A part of a path that stays when the path is taken apart: a name, or `..`. -/
structure IsStep (part : String) : Prop where
  ne_empty : part ≠ ""
  ne_dot : part ≠ "."
  no_slash : '/' ∉ part.toList

theorem IsPlain.isStep {part : String} (h : IsPlain part) : IsStep part :=
  ⟨h.ne_empty, h.ne_dot, h.no_slash⟩

theorem isStep_dotDot : IsStep ".." :=
  ⟨by simp, by simp, by simp⟩

theorem components_unsplit_of_isStep {parts : List String} (hne : parts ≠ [])
    (h : ∀ part ∈ parts, IsStep part) : components (unsplit parts) = parts := by
  obtain ⟨part, rest, rfl⟩ := List.exists_cons_of_ne_nil hne
  have hpart : IsStep part := h part List.mem_cons_self
  have hkeep : ((part :: rest).filter fun part => part ≠ "" ∧ part ≠ ".") = part :: rest := by
    rw [List.filter_eq_self]
    intro part hpart
    simp [(h part hpart).ne_empty, (h part hpart).ne_dot]
  have hhead : (part :: rest).head? ≠ some "." := by simpa using hpart.ne_dot
  unfold components
  rw [isAbsolute_unsplit_cons rest hpart.ne_empty hpart.no_slash,
    split_unsplit hne fun part hpart => (h part hpart).no_slash]
  simp only [hkeep, hhead, if_false, Bool.false_eq_true]

@[simp] theorem components_empty : components "" = [] := by
  simp [components, Path.split, isAbsolute]

@[simp] theorem components_dot : components "." = ["."] := by
  have hsplit : Path.split "." = ["."] := split_of_not_mem (by simp)
  simp [components, hsplit, isAbsolute]

/-- The components of a path of names are the names. -/
theorem components_unsplit {parts : List String} (h : ∀ part ∈ parts, IsPlain part) :
    components (unsplit parts) = parts := by
  by_cases hne : parts = []
  · rw [hne, unsplit_nil, components_empty]
  · exact components_unsplit_of_isStep hne fun part hpart => (h part hpart).isStep

/-! ### One name further down -/

theorem IsPlain.isAbsolute {name : String} (h : IsPlain name) : isAbsolute name = false := by
  simpa [Path.isAbsolute] using h.head?_ne_slash

theorem join_of_getLast? {base name : String} (h : IsPlain name)
    (hslash : base.toList.getLast? = some '/') : join base name = base ++ name := by
  have hbase : base ≠ "" := by
    rintro rfl
    simp at hslash
  simp [join, h.isAbsolute, hbase, hslash]

theorem join_of_getLast?_ne {base name : String} (h : IsPlain name) (hbase : base ≠ "")
    (hslash : base.toList.getLast? ≠ some '/') : join base name = base ++ "/" ++ name := by
  simp [join, h.isAbsolute, hbase, hslash]

/-- The pieces of a path with one more name are those in front of it, of which an empty last one is
left out. -/
theorem exists_split_join {base name : String} (h : IsPlain name) (hbase : base ≠ "") :
    ∃ front : List String, front ≠ [] ∧ split (join base name) = front ++ [name] ∧
      (split base = front ∨ split base = front ++ [""]) := by
  by_cases hslash : base.toList.getLast? = some '/'
  · obtain ⟨cs, hcs⟩ := List.getLast?_eq_some_iff.1 hslash
    have hbase' : base = String.ofList cs ++ "/" ++ "" := by
      rw [← String.toList_inj]
      simp [hcs]
    have hjoin : join base name = String.ofList cs ++ "/" ++ name := by
      rw [join_of_getLast? h hslash, hbase', String.append_empty]
    refine ⟨split (String.ofList cs), split_ne_nil _, ?_, .inr ?_⟩
    · rw [hjoin, split_append_slash, h.split]
    · have hend : split "" = [""] := split_of_not_mem (by simp)
      rw [hbase', split_append_slash, hend]
  · refine ⟨split base, split_ne_nil _, ?_, .inl rfl⟩
    rw [join_of_getLast?_ne h hbase hslash, split_append_slash, h.split]

theorem isAbsolute_append {a b : String} (ha : a ≠ "") : isAbsolute (a ++ b) = isAbsolute a := by
  obtain ⟨c, cs, hcs⟩ := List.exists_cons_of_ne_nil (l := a.toList) (by simpa using ha)
  simp [isAbsolute, hcs]

theorem isAbsolute_join {base name : String} (h : IsPlain name) (hbase : base ≠ "") :
    isAbsolute (join base name) = isAbsolute base := by
  by_cases hslash : base.toList.getLast? = some '/'
  · rw [join_of_getLast? h hslash, isAbsolute_append hbase]
  · rw [join_of_getLast?_ne h hbase hslash, String.append_assoc, isAbsolute_append hbase]

theorem components_join {base name : String} (h : IsPlain name) :
    components (join base name) = components base ++ [name] := by
  by_cases hbase : base = ""
  · have hjoin : join base name = unsplit [name] := by simp [join, h.isAbsolute, hbase]
    rw [hjoin, components_unsplit (by simpa using h), hbase, components_empty]
    rfl
  · obtain ⟨front, hfront, hsplit, hnames⟩ := exists_split_join h hbase
    have hhead : (split (join base name)).head? = (split base).head? := by
      obtain ⟨part, parts, rfl⟩ := List.exists_cons_of_ne_nil hfront
      rcases hnames with hbase' | hbase' <;> simp [hsplit, hbase']
    have hfilter : ((split (join base name)).filter fun part => part ≠ "" ∧ part ≠ ".") =
        ((split base).filter fun part => part ≠ "" ∧ part ≠ ".") ++ [name] := by
      rcases hnames with hbase' | hbase' <;> simp [hsplit, hbase', h.ne_empty, h.ne_dot]
    simp only [components, isAbsolute_join h hbase, hhead, hfilter]
    split
    · simp
    · split <;> simp

theorem fileName?_join {base name : String} (h : IsPlain name) :
    fileName? (join base name) = some name := by
  rw [fileName?, components_join h]
  simp [h.isName]

end InfraGraph.Path
