import InfraGraph.Proofs.Hcl.Plain

/-!
# Reading integers, strings and references

A value is read from its text wherever a value may stand: at the end of a line, and in front of a
comma or a closing bracket.  What stands there makes no value longer, and no value starts with it.
-/

namespace InfraGraph.Hcl

/-! ### What stands behind values -/

/-- Nothing in a text makes the value in front of it longer. -/
structure EndsValue (lines : Bool) (after : List Char) : Prop
    extends EndsExpression lines after where
  next : ∀ c ∈ after.head?, Text.isIdentifierRest c = false ∧ c ≠ '.'
  call : ∀ c ∈ (skipBlanks false after).head?, c ∉ [':', '(']

theorem endsValue_newline (rest : List Char) : EndsValue false ('\n' :: rest) := by
  refine ⟨endsExpression_newline rest, ?_, ?_⟩
  · rintro c ⟨⟩
    decide
  · rw [skipBlanks_line_end]
    rintro c ⟨⟩
    decide

theorem endsValue_equals (rest : List Char) : EndsValue false (' ' :: '=' :: ' ' :: rest) := by
  refine ⟨endsExpression_equals rest, ?_, ?_⟩
  · rintro c ⟨⟩
    decide
  · rw [skipBlanks_space, skipBlanks_of_isSolid (by decide)]
    rintro c ⟨⟩
    decide

/-- A character that separates values or closes a collection. -/
def IsClosing (c : Char) : Prop :=
  c ∈ [',', ']', ')', '\x7d']

instance (c : Char) : Decidable (IsClosing c) :=
  inferInstanceAs (Decidable (c ∈ [',', ']', ')', '\x7d']))

theorem endsExpression_of_isClosing {c : Char} (h : IsClosing c) {lines : Bool}
    {after rest : List Char} (hskip : skipBlanks lines after = c :: rest) :
    EndsExpression lines after := by
  simp only [IsClosing, List.mem_cons, List.not_mem_nil, or_false] at h
  constructor
  · rw [hskip]
    rcases h with rfl | rfl | rfl | rfl <;> rfl
  · rw [hskip]
    rintro d ⟨⟩
    rcases h with rfl | rfl | rfl | rfl <;> decide

theorem IsClosing.isSolid {c : Char} (h : IsClosing c) : IsSolid c := by
  simp only [IsClosing, List.mem_cons, List.not_mem_nil, or_false] at h
  rcases h with rfl | rfl | rfl | rfl <;> decide

theorem IsClosing.endsValue {c : Char} (h : IsClosing c) (lines : Bool) (rest : List Char) :
    EndsValue lines (c :: rest) := by
  refine ⟨endsExpression_of_isClosing h (skipBlanks_of_isSolid h.isSolid lines rest), ?_, ?_⟩
  all_goals simp only [IsClosing, List.mem_cons, List.not_mem_nil, or_false] at h
  · rintro d ⟨⟩
    rcases h with rfl | rfl | rfl | rfl <;> decide
  · rw [skipBlanks_of_isSolid (by rcases h with rfl | rfl | rfl | rfl <;> decide)]
    rintro d ⟨⟩
    rcases h with rfl | rfl | rfl | rfl <;> decide

/-- An object is closed behind a blank. -/
theorem endsValue_brace (rest : List Char) : EndsValue false (' ' :: '\x7d' :: rest) := by
  have hskip : skipBlanks false (' ' :: '\x7d' :: rest) = '\x7d' :: rest := by
    rw [skipBlanks_space, skipBlanks_of_isSolid (by decide)]
  refine ⟨endsExpression_of_isClosing (by decide) hskip, ?_, ?_⟩
  · rintro c ⟨⟩
    decide
  · rw [hskip]
    rintro c ⟨⟩
    decide

/-! ### What stands in front of values -/

/-- The text of a value starts with a character that cannot close a collection, and with no word
that would introduce a for expression. -/
structure StartsValue (text : List Char) : Prop where
  cons : ∃ c rest, text = c :: rest ∧ IsSolid c ∧ ¬ IsClosing c
  noFor : ∀ after, (∀ c ∈ after.head?, IsSolid c ∧ Text.isIdentifierRest c = false) →
    startsFor (text ++ after) = false

theorem startsFor_of_ne {c : Char} (h : c ≠ 'f') (cs : List Char) :
    startsFor (c :: cs) = false := by
  rw [← Bool.not_eq_true]
  intro hstart
  obtain ⟨_, _, htext, _⟩ := exists_of_startsFor hstart
  exact h (List.cons.inj htext).1

theorem startsValue_of_ne {c : Char} {cs : List Char} (hsolid : IsSolid c)
    (hclosing : ¬ IsClosing c) (hc : c ≠ 'f') : StartsValue (c :: cs) :=
  ⟨⟨c, cs, rfl, hsolid, hclosing⟩, fun _ _ => startsFor_of_ne hc _⟩

theorem not_isClosing_of_isIdentifierStart {c : Char} (h : Text.isIdentifierStart c = true) :
    ¬ IsClosing c := by
  have hnone : [',', ']', ')', '\x7d'].any Text.isIdentifierStart = false := by decide
  exact fun hmem => List.any_eq_false.1 hnone c hmem h

/-- A value may start with a name, if nothing that could be part of it stands behind. -/
theorem startsValue_name {name : String} (h : IsIdentifier name.toList) {more : List Char}
    (hmore : ∀ c ∈ more.head?, IsSolid c ∧ Text.isIdentifierRest c = false) :
    StartsValue (name.toList ++ more) := by
  obtain ⟨first, cs, hcs, hfirst⟩ := h.exists_cons
  refine ⟨⟨first, cs ++ more, by rw [hcs, List.cons_append], isSolid_of_isIdentifierStart hfirst,
    not_isClosing_of_isIdentifierStart hfirst⟩, fun after hafter => ?_⟩
  have hboth : ∀ c ∈ (more ++ after).head?, IsSolid c ∧ Text.isIdentifierRest c = false := by
    cases more with
    | nil => exact hafter
    | cons d more => exact hmore
  rw [List.append_assoc]
  exact startsFor_append h (fun c hc => (hboth c hc).2) (.inr fun c hc => (hboth c hc).1)

theorem StartsValue.ne_closing {text : List Char} (h : StartsValue text) {c : Char}
    (hc : IsClosing c) (tail rest : List Char) : text ++ tail ≠ c :: rest := by
  obtain ⟨d, cs, rfl, _, hclosing⟩ := h.cons
  intro heq
  exact hclosing ((List.cons.inj heq).1 ▸ hc)

theorem StartsValue.skipBlanks_append {text : List Char} (h : StartsValue text) (lines : Bool)
    (tail : List Char) : skipBlanks lines (text ++ tail) = text ++ tail := by
  obtain ⟨d, cs, rfl, hsolid, _⟩ := h.cons
  exact skipBlanks_of_isSolid hsolid lines _

/-! ### Integers -/

theorem not_mem_of_isDigit {c : Char} {cs : List Char} (h : c.isDigit = true)
    (hcs : cs.any Char.isDigit = false) : c ∉ cs :=
  fun hmem => List.any_eq_false.1 hcs c hmem h

theorem isIdentifierRest_of_isDigit {c : Char} (h : c.isDigit = true) :
    Text.isIdentifierRest c = true := by
  have hdigit : Text.isAsciiDigit c = true := h
  simp [Text.isIdentifierRest, hdigit]

theorem exists_digitsOf_eq_cons (n : Nat) :
    ∃ c cs, Decimal.digitsOf n = c :: cs ∧ c.isDigit = true := by
  obtain ⟨c, cs, hcons⟩ := List.exists_cons_of_ne_nil (Decimal.digitsOf_ne_nil n)
  exact ⟨c, cs, hcons, Decimal.isDigit_of_mem_digitsOf (by rw [hcons]; simp)⟩

section Integers

variable {after : List Char}
  (hafter : ∀ c ∈ after.head?, Text.isIdentifierRest c = false ∧ c ≠ '.')

include hafter

theorem readDigits_digitsOf (n : Nat) :
    Number.readDigits (Decimal.digitsOf n ++ after) = some (Decimal.digitsOf n, after) := by
  have hnone : after.takeWhile Char.isDigit = [] ∧ after.dropWhile Char.isDigit = after := by
    cases after with
    | nil => exact ⟨rfl, rfl⟩
    | cons c rest =>
        have hc : ¬ c.isDigit = true := fun h =>
          Bool.false_ne_true ((hafter c rfl).1.symm.trans (isIdentifierRest_of_isDigit h))
        rw [List.takeWhile_cons_of_neg hc, List.dropWhile_cons_of_neg hc]
        exact ⟨rfl, rfl⟩
  have hdigits : ∀ c ∈ Decimal.digitsOf n, c.isDigit = true :=
    fun _ => Decimal.isDigit_of_mem_digitsOf
  rw [Number.readDigits, List.takeWhile_append_of_pos hdigits,
    List.dropWhile_append_of_pos hdigits, hnone.1, hnone.2, List.append_nil]
  obtain ⟨c, cs, hcons, _⟩ := exists_digitsOf_eq_cons n
  rw [hcons]

theorem readFraction_eq_none : Number.readFraction after = none := by
  unfold Number.readFraction
  split
  · exact absurd rfl (hafter '.' rfl).2
  · rfl

theorem readExponent_eq_none : Number.readExponent after = none := by
  cases after with
  | nil => rfl
  | cons c rest =>
      have hc : ¬ (c = 'e' ∨ c = 'E') := by
        rintro (rfl | rfl)
        · exact absurd (hafter 'e' rfl).1 (by decide)
        · exact absurd (hafter 'E' rfl).1 (by decide)
      simp only [Number.readExponent, hc, if_false]

theorem read_digitsOf {n : Nat} (h : n < Number.unsignedBound) :
    Number.read (Decimal.digitsOf n ++ after) = some (.integer n, after) := by
  have hvalue : Number.digitsValue (Decimal.digitsOf n) = n := Nat.ofDigitChars_ten_toDigits
  rw [Number.read, readDigits_digitsOf hafter]
  simp only [readFraction_eq_none hafter, Option.getD_none, readExponent_eq_none hafter,
    Option.isNone_none, and_self, if_true, hvalue, h]

theorem readNumber_integerText {n : Int} (hlow : -(Number.signedBound : Int) < n)
    (hhigh : n < Number.unsignedBound) :
    readNumber (Decimal.integerText n ++ after) = some (.integer n, after) := by
  unfold Decimal.integerText
  split
  · have hbound : n.natAbs < Number.signedBound := by omega
    have hword : Number.signedBound < Number.unsignedBound := by decide
    have hnegate : (Number.integer n.natAbs).negate = .integer n := by
      have hsmall : (n.natAbs : Int) < (Number.signedBound : Int) := by omega
      have hback : -(n.natAbs : Int) = n := by omega
      simp only [Number.negate, hsmall, if_true, hback]
    rw [List.cons_append, readNumber, read_digitsOf hafter (by omega), Option.map_some]
    exact congrArg (fun number => some (number, after)) hnegate
  · obtain ⟨c, cs, hcons, hdigit⟩ := exists_digitsOf_eq_cons n.natAbs
    have hread := read_digitsOf hafter (show n.natAbs < Number.unsignedBound by omega)
    have hminus : c ∉ ['-'] := not_mem_of_isDigit hdigit (by decide)
    rw [hcons] at hread ⊢
    rw [List.cons_append, readNumber.eq_def] at *
    split
    · rename_i hminus'
      exact absurd (List.mem_singleton.2 (List.cons.inj hminus').1) hminus
    · rw [hread]
      congr 3
      omega

end Integers

/-! ### Terms -/

namespace Expression

/-- The expression is read from its text wherever a value may stand. -/
def ReadsBack (e : Expression) : Prop :=
  ∀ fuel lines after, 8 * e.text.toList.length + 16 ≤ fuel → EndsValue lines after →
    readExpression fuel lines (e.text.toList ++ after) = some (e, after)

theorem readsBack_integer {n : Int} (hlow : -(Number.signedBound : Int) < n)
    (hhigh : n < Number.unsignedBound) : (number (.integer n)).ReadsBack := by
  intro fuel lines after hfuel hafter
  obtain ⟨fuel, rfl⟩ : ∃ n, fuel = n + 3 := ⟨fuel - 3, by omega⟩
  have hread := readNumber_integerText hafter.next hlow hhigh
  have htext : (number (.integer n)).text.toList = Decimal.integerText n := toList_text _
  obtain ⟨d, ds, hcons, hdigit⟩ := exists_digitsOf_eq_cons n.natAbs
  rw [htext]
  unfold Decimal.integerText at hread ⊢
  rw [hcons] at hread ⊢
  refine readExpression_of_readTerm (fun fuel => ?_) ?_ hafter.toEndsExpression
  · split
    · cases fuel with
      | zero => rfl
      | succ fuel =>
          simp only [List.cons_append]
          rw [readUnary, skipBlanks_of_isSolid (by decide)]
          simp only [hdigit, if_true]
    · exact readUnary_of_isSolid (not_mem_of_isDigit hdigit (by decide))
        (not_mem_of_isDigit hdigit (by decide)) fuel _
  · have hnone : d ∉ ['"', '<', '[', '\x7b', '('] := not_mem_of_isDigit hdigit (by decide)
    split at hread
    · rename_i hneg
      rw [if_pos hneg, List.cons_append, readTerm, if_pos (.inl rfl), ← List.cons_append, hread]
      · rfl
      all_goals simp
    · rename_i hpos
      rw [if_neg hpos, List.cons_append, readTerm, if_pos (.inr hdigit), ← List.cons_append, hread]
      · rfl
      all_goals intros; simp_all

theorem text_string_eq (s : String) :
    (string s).text.toList = '"' :: (escapeText s.toList ++ ['"']) := by
  rw [toList_text]
  rfl

theorem readsBack_string (s : String) : (string s).ReadsBack := by
  intro fuel lines after hfuel hafter
  rw [text_string_eq] at hfuel ⊢
  simp only [List.length_cons, List.length_append, List.length_nil] at hfuel
  obtain ⟨fuel, rfl⟩ : ∃ n, fuel = n + 3 := ⟨fuel - 3, by omega⟩
  have hterm : readTerm (fuel + 1) ('"' :: (escapeText s.toList ++ '"' :: after)) =
      some (.string s, after) := by
    rw [readTerm, readPieces_escapeText s.toList (by omega)]
    simp only [Option.bind_eq_bind, Option.bind_some, ofQuoted, Piece.plain?_ofText,
      String.ofList_toList]
    rfl
  have hread := readExpression_of_readTerm (fun fuel => readUnary_of_isSolid (by decide) (by decide)
    fuel _) hterm hafter.toEndsExpression
  simpa using hread

/-- The steps of a reference. -/
def stepsText (steps : List String) : List Char :=
  steps.flatMap fun step => '.' :: step.toList

theorem length_le_stepsText (steps : List String) : steps.length ≤ (stepsText steps).length := by
  induction steps with
  | nil => exact Nat.le_refl _
  | cons step steps ih =>
      rw [stepsText] at ih ⊢
      simp only [List.flatMap_cons, List.length_append, List.length_cons]
      omega

theorem head?_stepsText_append {lines : Bool} {after : List Char} (h : EndsValue lines after)
    (steps : List String) : ∀ c ∈ (stepsText steps ++ after).head?,
      Text.isIdentifierRest c = false := by
  cases steps with
  | nil => exact fun c hc => (h.next c hc).1
  | cons step steps =>
      rintro c ⟨⟩
      decide

theorem readSteps_stepsText {lines : Bool} {after : List Char} (hafter : EndsValue lines after)
    {steps : List String} (h : ∀ step ∈ steps, IsIdentifier step.toList) {fuel : Nat}
    (hfuel : steps.length < fuel) :
    readSteps fuel lines (stepsText steps ++ after) = some (steps.map .attribute, after) := by
  obtain ⟨fuel, rfl⟩ : ∃ n, fuel = n + 1 := ⟨fuel - 1, by omega⟩
  induction steps generalizing fuel with
  | nil => exact readSteps_of_endsExpression hafter.toEndsExpression fuel
  | cons step steps ih =>
      obtain ⟨hstep, hsteps⟩ := List.forall_mem_cons.1 h
      rw [List.length_cons] at hfuel
      obtain ⟨fuel, rfl⟩ : ∃ n, fuel = n + 1 := ⟨fuel - 1, by omega⟩
      have hread := @readIdentifier_append step hstep _ (head?_stepsText_append hafter steps)
      have hmore := ih hsteps fuel (by omega)
      obtain ⟨first, cs, hcs, hfirst⟩ := hstep.exists_cons
      have hsolid := skipBlanks_of_isSolid (isSolid_of_isIdentifierStart hfirst) true
        (cs ++ (stepsText steps ++ after))
      have hstar : first ≠ '*' := by
        rintro rfl
        exact absurd hfirst (by decide)
      have hdigits : Number.readDigits (first :: (cs ++ (stepsText steps ++ after))) = none := by
        rw [Number.readDigits, List.takeWhile_cons_of_neg]
        rw [isDigit_of_isIdentifierStart hfirst]
        exact Bool.false_ne_true
      have htext : stepsText (step :: steps) ++ after =
          '.' :: (first :: (cs ++ (stepsText steps ++ after))) := by
        simp [stepsText, hcs]
      rw [hcs, List.cons_append] at hread
      rw [htext, readSteps, skipBlanks_of_isSolid (by decide)]
      simp only [hsolid]
      split
      · rename_i hcons
        exact absurd (List.cons.inj hcons).1 hstar
      · rw [hdigits, hread]
        simp only [hmore, Option.bind_eq_bind, Option.bind_some]
        rfl

theorem readsBack_reference {name : String} {steps : List String} (hname : IsIdentifier name.toList)
    (hsteps : ∀ step ∈ steps, IsIdentifier step.toList) : (reference name steps).ReadsBack := by
  intro fuel lines after hfuel hafter
  have htext : (reference name steps).text.toList = name.toList ++ stepsText steps := by
    rw [toList_text, writeExpression_reference]
    rfl
  have hlength := length_le_stepsText steps
  rw [htext] at hfuel ⊢
  rw [List.length_append] at hfuel
  obtain ⟨fuel, rfl⟩ : ∃ n, fuel = n + 3 := ⟨fuel - 3, by omega⟩
  obtain ⟨first, cs, hcs, hfirst⟩ := hname.exists_cons
  have hcall : ∀ c ∈ (skipBlanks false (stepsText steps ++ after)).head?, c ∉ [':', '('] := by
    cases steps with
    | nil => exact hafter.call
    | cons step steps =>
        rw [stepsText, List.flatMap_cons, List.cons_append, List.cons_append,
          skipBlanks_of_isSolid (by decide)]
        rintro c ⟨⟩
        decide
  have hterm := readTerm_name hname (head?_stepsText_append hafter steps) hcall fuel
  have hunary : ∀ fuel, readUnary none fuel (name.toList ++ (stepsText steps ++ after)) =
      (none, name.toList ++ (stepsText steps ++ after)) := by
    intro fuel
    have hnone := isIdentifierStart_ne hfirst
    rw [hcs, List.cons_append]
    exact readUnary_of_isSolid (isSolid_of_isIdentifierStart hfirst) (by simp_all) fuel _
  rw [List.append_assoc, readExpression_of_readSteps hunary hterm
    (readSteps_stepsText hafter hsteps (by omega)) hafter.toEndsExpression, reference,
    List.isEmpty_map]

end Expression

end InfraGraph.Hcl
