import InfraGraph.Proofs.Hcl.Lexical

/-!
# Reading escaped text

Every text comes back from between quotes if it is escaped: each character is read from its own
escape, and a sign that would start code is doubled.
-/

namespace InfraGraph.Hcl

/-- A character stands for itself, or it has an escape from which it is read. -/
theorem escapeChar_cases (c : Char) :
    (escapeChar c = [c] ∧ c ≠ '"' ∧ c ≠ '\\') ∨
      ∃ code, escapeChar c = '\\' :: code ∧ ∀ rest, readEscape (code ++ rest) = some (c, rest) := by
  unfold escapeChar
  split
  · subst_vars; exact .inr ⟨['"'], rfl, fun _ => rfl⟩
  split
  · subst_vars; exact .inr ⟨['\\'], rfl, fun _ => rfl⟩
  split
  · subst_vars; exact .inr ⟨['n'], rfl, fun _ => rfl⟩
  split
  · subst_vars; exact .inr ⟨['r'], rfl, fun _ => rfl⟩
  split
  · subst_vars; exact .inr ⟨['t'], rfl, fun _ => rfl⟩
  split
  · subst_vars; exact .inr ⟨['b'], rfl, fun _ => rfl⟩
  split
  · subst_vars; exact .inr ⟨['f'], rfl, fun _ => rfl⟩
  split
  · rename_i hlow
    have hcode : ∀ n : Fin 32, charOfHex? ['0', '0', Text.hexDigit (n.val / 16),
        Text.hexDigit (n.val % 16)] = some (Char.ofNat n.val) := by decide
    refine .inr ⟨_, rfl, fun rest => ?_⟩
    have hc := hcode ⟨c.toNat, hlow⟩
    rw [Char.ofNat_toNat] at hc
    simp [readEscape, hc]
  · rename_i hquote hbackslash _ _ _ _ _ _
    exact .inl ⟨rfl, hquote, hbackslash⟩

/-! ### Doubled signs -/

/-- A sign in front of an opening brace is doubled. -/
theorem escapeText_code {sigil : Char} (h : sigil ∈ ['$', '%']) (cs : List Char) :
    escapeText (sigil :: '\x7b' :: cs) = sigil :: sigil :: '\x7b' :: escapeText cs := by
  rcases List.mem_pair.1 h with rfl | rfl <;> rfl

theorem escapeText_char {c : Char} {cs : List Char} (h : ¬ StartsCode (c :: cs)) :
    escapeText (c :: cs) = escapeChar c ++ escapeText cs := by
  rw [escapeText, guardMarkers, List.flatMap_cons]
  · rfl
  · rintro rest rfl rfl
    exact h ⟨'$', by decide, rest, rfl⟩
  · rintro rest rfl rfl
    exact h ⟨'%', by decide, rest, rfl⟩

/-- Escaped text starts with an opening brace only if the text does. -/
theorem head?_of_escapeText {cs after rest : List Char}
    (h : escapeText cs ++ '"' :: after = '\x7b' :: rest) : cs.head? = some '\x7b' := by
  cases cs with
  | nil => simp [escapeText, guardMarkers] at h
  | cons c cs =>
      by_cases hcode : StartsCode (c :: cs)
      · obtain ⟨sigil, hsigil, cs, hcs⟩ := hcode
        rw [hcs, escapeText_code hsigil, List.cons_append, List.cons.injEq] at h
        rw [h.1] at hsigil
        exact absurd hsigil (by decide)
      · rw [escapeText_char hcode, List.append_assoc] at h
        rcases escapeChar_cases c with ⟨hself, _⟩ | ⟨code, hescape, _⟩
        · rw [hself, List.cons_append, List.cons.injEq] at h
          rw [List.head?_cons, h.1]
        · rw [hescape, List.cons_append, List.cons.injEq] at h
          exact absurd h.1 (by decide)

/-- No code starts in escaped text. -/
theorem not_startsCode_escapeText (cs after : List Char) :
    ¬ StartsCode (escapeText cs ++ '"' :: after) := by
  rintro ⟨sigil, hsigil, rest, h⟩
  cases cs with
  | nil =>
      obtain ⟨rfl, _⟩ := List.cons.inj h
      revert hsigil
      decide
  | cons c cs =>
      by_cases hcode : StartsCode (c :: cs)
      · obtain ⟨other, hother, cs, hcs⟩ := hcode
        rw [hcs, escapeText_code hother, List.cons_append, List.cons_append, List.cons.injEq,
          List.cons.injEq] at h
        rw [h.2.1] at hother
        revert hother
        decide
      · rw [escapeText_char hcode, List.append_assoc] at h
        rcases escapeChar_cases c with ⟨hself, _⟩ | ⟨code, hescape, _⟩
        · rw [hself, List.cons_append, List.nil_append, List.cons.injEq] at h
          obtain ⟨rfl, h⟩ := h
          obtain ⟨cs, rfl⟩ := List.head?_eq_some_iff.1 (head?_of_escapeText h)
          exact hcode ⟨c, hsigil, cs, rfl⟩
        · rw [hescape, List.cons_append, List.cons.injEq] at h
          rw [← h.1] at hsigil
          revert hsigil
          decide

/-! ### Reading -/

theorem readPieces_escape {c : Char} {code tail : List Char}
    (h : readEscape (code ++ tail) = some (c, tail)) (fuel : Nat) (atLine : Bool) :
    readPieces (fuel + 1) .quoted atLine ('\\' :: (code ++ tail)) =
      (readPieces fuel .quoted false tail).bind fun (pieces, rest) =>
        some (consText [c] pieces, rest) := by
  rw [readPieces]
  simp only [List.head?_cons, Option.some.injEq, h, Option.bind_eq_bind, Option.bind_some]
  rfl

theorem readPieces_doubled {sigil : Char} (h : sigil ∈ ['$', '%']) (tail : List Char) (fuel : Nat)
    (atLine : Bool) :
    readPieces (fuel + 1) .quoted atLine (sigil :: sigil :: '\x7b' :: tail) =
      (readPieces fuel .quoted false tail).bind fun (pieces, rest) =>
        some (consText [sigil, '\x7b'] pieces, rest) := by
  rcases List.mem_pair.1 h with rfl | rfl
  · rw [readPieces]
    rfl
  · rw [readPieces]
    rfl

theorem consText_pair_ofText (c d : Char) (cs : List Char) :
    consText [c, d] (Piece.ofText cs) = Piece.ofText (c :: d :: cs) := by
  unfold Piece.ofText
  split
  · subst_vars
    rfl
  · rfl

section Steps

variable {cs after : List Char} {fuel : Nat}
  (ih : ∀ atLine, readPieces fuel .quoted atLine (escapeText cs ++ '"' :: after) =
    some (Piece.ofText cs, '"' :: after))

include ih

theorem readPieces_escapeText_code {sigil : Char} (h : sigil ∈ ['$', '%']) (atLine : Bool) :
    readPieces (fuel + 1) .quoted atLine (escapeText (sigil :: '\x7b' :: cs) ++ '"' :: after) =
      some (Piece.ofText (sigil :: '\x7b' :: cs), '"' :: after) := by
  rw [escapeText_code h]
  simp only [List.cons_append]
  rw [readPieces_doubled h, ih, Option.bind_some]
  simp only [consText_pair_ofText]

theorem readPieces_escapeText_char {c : Char} (h : ¬ StartsCode (c :: cs)) (atLine : Bool) :
    readPieces (fuel + 1) .quoted atLine (escapeText (c :: cs) ++ '"' :: after) =
      some (Piece.ofText (c :: cs), '"' :: after) := by
  have hstart := not_startsCode_escapeText (c :: cs) after
  rw [escapeText_char h, List.append_assoc] at hstart ⊢
  rcases escapeChar_cases c with ⟨hself, hquote, hbackslash⟩ | ⟨code, hescape, hread⟩
  · rw [hself, List.singleton_append] at hstart ⊢
    rw [readPieces_char hquote hbackslash hstart (not_startsCode_escapeText cs after), ih,
      Option.bind_some]
    simp only [consText_ofText]
  · rw [hescape, List.cons_append, readPieces_escape (hread _), ih, Option.bind_some]
    simp only [consText_ofText]

end Steps

theorem length_escapeText_char {c : Char} {cs : List Char} (h : ¬ StartsCode (c :: cs)) :
    (escapeText cs).length < (escapeText (c :: cs)).length := by
  rw [escapeText_char h, List.length_append]
  rcases escapeChar_cases c with ⟨hself, _⟩ | ⟨code, hescape, _⟩
  · rw [hself, List.length_singleton]
    omega
  · rw [hescape, List.length_cons]
    omega

/-- A text comes back from what is written for it between quotes. -/
theorem readPieces_escapeText (cs : List Char) {fuel : Nat} (hfuel : (escapeText cs).length < fuel)
    (atLine : Bool) (after : List Char) :
    readPieces fuel .quoted atLine (escapeText cs ++ '"' :: after) =
      some (Piece.ofText cs, '"' :: after) := by
  obtain ⟨fuel, rfl⟩ : ∃ n, fuel = n + 1 := ⟨fuel - 1, by omega⟩
  induction cs using guardMarkers.induct generalizing fuel atLine with
  | case1 cs ih | case2 cs ih =>
      rw [escapeText_code (by decide)] at hfuel
      simp only [List.length_cons] at hfuel
      obtain ⟨fuel, rfl⟩ : ∃ n, fuel = n + 1 := ⟨fuel - 1, by omega⟩
      exact readPieces_escapeText_code (fun atLine => ih atLine fuel (by omega)) (by decide) atLine
  | case3 c cs hdollar hpercent ih =>
      have hcode : ¬ StartsCode (c :: cs) := by
        rintro ⟨sigil, hsigil, rest, h⟩
        obtain ⟨rfl, rfl⟩ := List.cons.inj h
        rcases List.mem_pair.1 hsigil with rfl | rfl
        · exact hdollar rest rfl rfl
        · exact hpercent rest rfl rfl
      have hlength := length_escapeText_char hcode
      obtain ⟨fuel, rfl⟩ : ∃ n, fuel = n + 1 := ⟨fuel - 1, by omega⟩
      exact readPieces_escapeText_char (fun atLine => ih atLine fuel (by omega)) hcode atLine
  | case4 => simp [escapeText, guardMarkers, readPieces, Piece.ofText]

end InfraGraph.Hcl
