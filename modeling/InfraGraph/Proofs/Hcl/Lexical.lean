import Mathlib.Data.List.Basic
import Mathlib.Data.List.Chain
import Mathlib.Tactic.Common
import InfraGraph.Hcl.Reader

/-!
# Reading blanks, identifiers and quoted text

What the generator writes between values has few forms: blanks, one comment, identifiers, and text
between quotes.  Quoted text is written as it is, so it comes back only if nothing in it has a
meaning of its own.
-/

namespace InfraGraph.Hcl

/-! ### Blanks -/

/-- A character that neither is blank nor starts a comment. -/
def IsSolid (c : Char) : Prop :=
  c ∉ [' ', '\t', '\n', '\r', '#', '/']

instance (c : Char) : Decidable (IsSolid c) :=
  inferInstanceAs (Decidable (c ∉ [' ', '\t', '\n', '\r', '#', '/']))

theorem skipBlanks_of_isSolid {c : Char} (h : IsSolid c) (lines : Bool) (rest : List Char) :
    skipBlanks lines (c :: rest) = c :: rest := by
  simp only [IsSolid, List.mem_cons, List.not_mem_nil, or_false, not_or] at h
  obtain ⟨hspace, htab, hnewline, hreturn, hhash, hslash⟩ := h
  rw [skipBlanks] <;> simp_all

@[simp] theorem skipBlanks_space (lines : Bool) (rest : List Char) :
    skipBlanks lines (' ' :: rest) = skipBlanks lines rest := by
  rw [skipBlanks]

@[simp] theorem skipBlanks_newline (rest : List Char) :
    skipBlanks true ('\n' :: rest) = skipBlanks true rest := by
  rw [skipBlanks, if_pos rfl]

@[simp] theorem skipBlanks_line_end (rest : List Char) :
    skipBlanks false ('\n' :: rest) = '\n' :: rest := by
  rw [skipBlanks, if_neg Bool.false_ne_true]

theorem skipBlanks_indent (lines : Bool) (count : Nat) (rest : List Char) :
    skipBlanks lines (List.replicate count ' ' ++ rest) = skipBlanks lines rest := by
  induction count with
  | zero => rfl
  | succ count ih => rw [List.replicate_succ, List.cons_append, skipBlanks_space, ih]

/-- A comment is left out with its line end. -/
theorem skipBlanks_comment {comment : List Char} (h : ∀ c ∈ comment, c ≠ '\n' ∧ c ≠ '\r')
    (rest : List Char) :
    skipBlanks true ('#' :: comment ++ '\n' :: rest) = skipBlanks true rest := by
  rw [List.cons_append, skipBlanks, if_pos rfl]
  induction comment with
  | nil => rw [List.nil_append, skipLineComment]
  | cons c comment ih =>
      obtain ⟨⟨hnewline, hreturn⟩, hcomment⟩ := List.forall_mem_cons.1 h
      rw [List.cons_append, skipLineComment, if_neg hreturn, ih hcomment]
      · exact hnewline
      · exact fun _ hc => absurd hc hreturn

@[simp] theorem skipToNextLine?_newline (rest : List Char) :
    skipToNextLine? ('\n' :: rest) = some rest := by
  simp [skipToNextLine?, lineEnd?]

@[simp] theorem afterText?_singleton (c : Char) (rest : List Char) :
    afterText? [c] (c :: rest) = some rest := by
  simp [afterText?]

/-! ### Identifiers -/

/-- A text that is an identifier. -/
def IsIdentifier : List Char → Prop
  | [] => False
  | first :: rest => Text.isIdentifierStart first = true ∧
      ∀ c ∈ rest, Text.isIdentifierRest c = true

instance : DecidablePred IsIdentifier
  | [] => inferInstanceAs (Decidable False)
  | first :: rest => decidable_of_iff
      (Text.isIdentifierStart first = true ∧ rest.all Text.isIdentifierRest = true)
      (and_congr_right fun _ => List.all_eq_true)

theorem isSolid_of_isIdentifierStart {c : Char} (h : Text.isIdentifierStart c = true) :
    IsSolid c := by
  have hnone : [' ', '\t', '\n', '\r', '#', '/'].any Text.isIdentifierStart = false := by decide
  exact fun hmem => List.any_eq_false.1 hnone c hmem h

theorem IsIdentifier.exists_cons {cs : List Char} (h : IsIdentifier cs) :
    ∃ first rest, cs = first :: rest ∧ Text.isIdentifierStart first = true := by
  cases cs with
  | nil => exact h.elim
  | cons first rest => exact ⟨first, rest, rfl, h.1⟩

theorem readIdentifier_append {name : String} (h : IsIdentifier name.toList) {rest : List Char}
    (hrest : ∀ c ∈ rest.head?, Text.isIdentifierRest c = false) :
    readIdentifier (name.toList ++ rest) = some (name, rest) := by
  obtain ⟨cs, rfl⟩ : ∃ cs, name = String.ofList cs := ⟨_, String.ofList_toList.symm⟩
  rw [String.toList_ofList] at h ⊢
  cases cs with
  | nil => exact h.elim
  | cons first cs =>
      obtain ⟨hfirst, hcs⟩ := h
      have htake : rest.takeWhile Text.isIdentifierRest = [] := by
        cases rest with
        | nil => rfl
        | cons c rest => rw [List.takeWhile_cons_of_neg (by simp [hrest c rfl])]
      have hdrop : rest.dropWhile Text.isIdentifierRest = rest := by
        cases rest with
        | nil => rfl
        | cons c rest => rw [List.dropWhile_cons_of_neg (by simp [hrest c rfl])]
      rw [List.cons_append, readIdentifier, if_pos hfirst, List.takeWhile_append_of_pos hcs,
        List.dropWhile_append_of_pos hcs, htake, hdrop, List.append_nil]

/-! ### Quoted text -/

/-- The pieces of a text without code. -/
def Piece.ofText (cs : List Char) : List Piece :=
  if cs = [] then [] else [.text cs]

theorem Piece.plain?_ofText (cs : List Char) : plain? (ofText cs) = some cs := by
  unfold ofText
  split
  · subst_vars
    rfl
  · simp [plain?]

theorem consText_ofText (c : Char) (cs : List Char) :
    consText [c] (Piece.ofText cs) = Piece.ofText (c :: cs) := by
  unfold Piece.ofText
  split
  · subst_vars
    rfl
  · rfl

/-- A text has code at its front. -/
def StartsCode (cs : List Char) : Prop :=
  ∃ sigil ∈ ['$', '%'], ∃ rest, cs = sigil :: '\x7b' :: rest

/-- A character without a meaning of its own is taken as it is. -/
theorem readPieces_char {c : Char} {cs : List Char} (hquote : c ≠ '"') (hbackslash : c ≠ '\\')
    (hcode : ¬ StartsCode (c :: cs)) (hdoubled : ¬ StartsCode cs) (fuel : Nat) (atLine : Bool) :
    readPieces (fuel + 1) .quoted atLine (c :: cs) =
      (readPieces fuel .quoted (c = '\n') cs).bind fun (pieces, rest) =>
        some (consText [c] pieces, rest) := by
  rw [readPieces]
  · simp only [List.head?_cons, Option.some.injEq, hquote, decide_false, Bool.false_eq_true,
      if_false]
    rfl
  -- No other pattern of the reader fits: it would be an escape, or the start of code.
  · exact fun rest _ h => hdoubled ⟨'$', by decide, rest, h⟩
  · exact fun rest _ h => hdoubled ⟨'%', by decide, rest, h⟩
  · rintro rest rfl rfl
    exact hcode ⟨'$', by decide, rest, rfl⟩
  · rintro rest rfl rfl
    exact hcode ⟨'%', by decide, rest, rfl⟩
  · exact hbackslash

/-- A text that means itself between quotes: it has no quotes and no escapes, and no code starts
in it. -/
structure IsVerbatim (cs : List Char) : Prop where
  quote : '"' ∉ cs
  backslash : '\\' ∉ cs
  markers : cs.IsChain fun c d => ¬ (c ∈ ['$', '%'] ∧ d = '\x7b')

instance : DecidablePred IsVerbatim := fun cs =>
  decidable_of_iff ('"' ∉ cs ∧ '\\' ∉ cs ∧
      cs.IsChain fun c d => ¬ (c ∈ ['$', '%'] ∧ d = '\x7b'))
    ⟨fun h => ⟨h.1, h.2.1, h.2.2⟩, fun h => ⟨h.quote, h.backslash, h.markers⟩⟩

namespace IsVerbatim

variable {c : Char} {cs ds : List Char}

theorem tail (h : IsVerbatim (c :: cs)) : IsVerbatim cs :=
  ⟨fun hmem => h.quote (List.mem_cons_of_mem _ hmem),
    fun hmem => h.backslash (List.mem_cons_of_mem _ hmem), h.markers.tail⟩

/-- Texts can be joined, unless code starts where they meet. -/
theorem append (hcs : IsVerbatim cs) (hds : IsVerbatim ds)
    (hmeet : ∀ c ∈ cs.getLast?, ∀ d ∈ ds.head?, ¬ (c ∈ ['$', '%'] ∧ d = '\x7b')) :
    IsVerbatim (cs ++ ds) where
  quote := by simp [hcs.quote, hds.quote]
  backslash := by simp [hcs.backslash, hds.backslash]
  markers := List.isChain_append.2 ⟨hcs.markers, hds.markers, hmeet⟩

/-- Texts can be joined by slashes. -/
theorem join (hcs : IsVerbatim cs) (hds : IsVerbatim ds) : IsVerbatim (cs ++ '/' :: ds) := by
  have hslash : IsVerbatim ('/' :: ds) :=
    @append ['/'] ds (by decide) hds (by simp)
  exact hcs.append hslash (by simp)

theorem not_startsCode (h : IsVerbatim cs) (after : List Char) :
    ¬ StartsCode (cs ++ '"' :: after) := by
  rintro ⟨sigil, hsigil, rest, hcode⟩
  rcases cs with _ | ⟨c, _ | ⟨d, cs⟩⟩
  · obtain ⟨rfl, _⟩ := List.cons.inj hcode
    revert hsigil
    decide
  · simp at hcode
  · simp only [List.cons_append, List.cons.injEq] at hcode
    obtain ⟨rfl, rfl, _⟩ := hcode
    exact (List.isChain_cons_cons.1 h.markers).1 ⟨hsigil, rfl⟩

theorem readPieces_eq (h : IsVerbatim cs) {fuel : Nat} (hfuel : cs.length < fuel)
    (atLine : Bool) (after : List Char) :
    readPieces fuel .quoted atLine (cs ++ '"' :: after) =
      some (Piece.ofText cs, '"' :: after) := by
  obtain ⟨fuel, rfl⟩ : ∃ n, fuel = n + 1 := ⟨fuel - 1, by omega⟩
  induction cs generalizing fuel atLine with
  | nil => simp [readPieces, Piece.ofText]
  | cons c cs ih =>
      rw [List.length_cons] at hfuel
      obtain ⟨fuel, rfl⟩ : ∃ n, fuel = n + 1 := ⟨fuel - 1, by omega⟩
      have hquote : c ≠ '"' := fun hc => h.quote (hc ▸ List.mem_cons_self)
      have hbackslash : c ≠ '\\' := fun hc => h.backslash (hc ▸ List.mem_cons_self)
      have hcode : ¬ StartsCode (c :: (cs ++ '"' :: after)) := h.not_startsCode after
      rw [List.cons_append, readPieces_char hquote hbackslash hcode (h.tail.not_startsCode after),
        ih h.tail _ fuel (by omega), Option.bind_some]
      simp only [consText_ofText]

end IsVerbatim

end InfraGraph.Hcl
