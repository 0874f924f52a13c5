import InfraGraph.Proofs.Hcl.Lexical

/-!
# Reading names, quoted texts and objects

Expressions stand in front of a line end, or of an equals sign if they are keys.  A text is read as
an expression there if reading takes exactly the text, whatever comes behind, with fuel that grows
with the length of the text.
-/

namespace InfraGraph.Hcl

/-- No operand, operator or step goes on in a text. -/
structure EndsExpression (lines : Bool) (after : List Char) : Prop where
  operator : readOperator (skipBlanks lines after) = none
  steps : ∀ c ∈ (skipBlanks lines after).head?, c ∉ ['.', '[', '?']

theorem endsExpression_newline (rest : List Char) : EndsExpression false ('\n' :: rest) := by
  refine ⟨?_, ?_⟩
  · rw [skipBlanks_line_end]
    rfl
  · rw [skipBlanks_line_end]
    rintro c ⟨⟩
    decide

theorem endsExpression_equals (rest : List Char) :
    EndsExpression false (' ' :: '=' :: ' ' :: rest) := by
  have hskip : skipBlanks false (' ' :: '=' :: ' ' :: rest) = '=' :: ' ' :: rest := by
    rw [skipBlanks_space, skipBlanks_of_isSolid (by decide)]
  refine ⟨?_, ?_⟩
  · rw [hskip]
    rfl
  · rw [hskip]
    rintro c ⟨⟩
    decide

/-! ### Operands -/

theorem readUnary_of_isSolid {c : Char} (h : IsSolid c) (hc : c ∉ ['!', '-']) (fuel : Nat)
    (rest : List Char) : readUnary none fuel (c :: rest) = (none, c :: rest) := by
  cases fuel with
  | zero => rfl
  | succ fuel =>
      rw [readUnary, skipBlanks_of_isSolid h]
      split
      · simp_all
      · simp_all
      · rfl

section Terms

variable {lines : Bool} {cs between after : List Char} {term : Expression} {steps : List Step}
  {fuel : Nat}

theorem readSteps_of_endsExpression (h : EndsExpression lines after) (fuel : Nat) :
    readSteps (fuel + 1) lines after = some ([], after) := by
  have hsteps := h.steps
  rw [readSteps]
  split
  · simp_all
  · simp_all
  · rfl

theorem readChain_of_endsExpression (h : EndsExpression lines after) (fuel : Nat) :
    readChain (fuel + 1) lines after = some ([], after) := by
  rw [readChain, h.operator]

/-- A term and the steps behind it are an expression, if nothing else stands around them. -/
theorem readExpression_of_readSteps (hunary : ∀ fuel, readUnary none fuel cs = (none, cs))
    (hterm : readTerm (fuel + 1) cs = some (term, between))
    (hsteps : readSteps (fuel + 1) lines between = some (steps, after))
    (hafter : EndsExpression lines after) :
    readExpression (fuel + 3) lines cs =
      some (if steps.isEmpty then term else .traversal term steps, after) := by
  have hoperand : readOperand (fuel + 2) lines cs =
      some (if steps.isEmpty then term else .traversal term steps, after) := by
    rw [readOperand, hunary]
    simp [hterm, hsteps]
  generalize (if steps.isEmpty then term else .traversal term steps) = operand at hoperand ⊢
  have hquestion : ∀ more, skipBlanks lines after ≠ '?' :: more := by
    intro more hmore
    exact hafter.steps '?' (by rw [hmore]; rfl) (by simp)
  rw [readExpression, hoperand]
  simp only [Option.bind_eq_bind, Option.bind_some, readChain_of_endsExpression hafter,
    List.isEmpty_nil, if_true]
  rfl

/-- A term without anything around it is an expression. -/
theorem readExpression_of_readTerm (hunary : ∀ fuel, readUnary none fuel cs = (none, cs))
    (hterm : readTerm (fuel + 1) cs = some (term, after)) (hafter : EndsExpression lines after) :
    readExpression (fuel + 3) lines cs = some (term, after) :=
  readExpression_of_readSteps hunary hterm (readSteps_of_endsExpression hafter fuel) hafter

end Terms

/-! ### Names -/

theorem isIdentifierStart_ne {c : Char} (h : Text.isIdentifierStart c = true) :
    c ∉ ['!', '-', '"', '<', '[', '\x7b', '('] := by
  have hnone : ['!', '-', '"', '<', '[', '\x7b', '('].any Text.isIdentifierStart = false := by
    decide
  exact fun hmem => List.any_eq_false.1 hnone c hmem h

theorem isDigit_of_isIdentifierStart {c : Char} (h : Text.isIdentifierStart c = true) :
    c.isDigit = false := by
  rw [← Bool.not_eq_true]
  intro hdigit
  simp only [Char.isDigit, Bool.and_eq_true, decide_eq_true_eq, ge_iff_le,
    UInt32.le_iff_toNat_le, UInt32.reduceToNat, Char.reduceVal] at hdigit
  simp only [Text.isIdentifierStart, Text.isAsciiLetter, Bool.or_eq_true, Bool.and_eq_true,
    decide_eq_true_eq, beq_iff_eq, Char.le_def, UInt32.le_iff_toNat_le, Char.toNat,
    UInt32.reduceToNat, Char.reduceVal] at h
  rcases h with (h | rfl) | h
  · omega
  · simp at hdigit
  · omega

theorem readNameParts_of_ne_colon {after : List Char}
    (hafter : ∀ c ∈ (skipBlanks false after).head?, c ≠ ':') (fuel : Nat) :
    readNameParts fuel after = ([], after) := by
  cases fuel with
  | zero => rfl
  | succ fuel =>
      rw [readNameParts]
      split
      · simp_all
      · rfl

/-- What starts with a name is a call if a parenthesis stands behind it, otherwise the name. -/
theorem readTerm_identifier {name : String} (h : IsIdentifier name.toList) {after : List Char}
    (hrest : ∀ c ∈ after.head?, Text.isIdentifierRest c = false)
    (hafter : ∀ c ∈ (skipBlanks false after).head?, c ≠ ':') (fuel : Nat) :
    (∀ inner, skipBlanks false after = '(' :: inner →
      readTerm (fuel + 1) (name.toList ++ after) =
        (readArguments fuel (skipBlanks true inner)).map fun read =>
          (.call name read.1 read.2.1, read.2.2)) ∧
      ((∀ inner, skipBlanks false after ≠ '(' :: inner) →
        readTerm (fuel + 1) (name.toList ++ after) = some (.ofName name, after)) := by
  have hread := readIdentifier_append h hrest
  generalize hcs : name.toList = cs at *
  cases cs with
  | nil => exact h.elim
  | cons first cs =>
      have hdigit := isDigit_of_isIdentifierStart h.1
      have hnone := isIdentifierStart_ne h.1
      rw [List.cons_append] at hread ⊢
      rw [readTerm]
      · rw [if_neg (by simp_all), hread]
        simp only [Option.bind_eq_bind, Option.bind_some, readNameParts_of_ne_colon hafter,
          List.isEmpty_nil, if_true]
        constructor
        · intro inner hparen
          simp only [hparen]
          cases readArguments fuel (skipBlanks true inner) <;> rfl
        · intro hname
          split
          · exact absurd ‹_› (hname _)
          · rfl
      -- The name starts with none of the signs that other terms start with.
      all_goals intros; simp_all

/-- A name that nothing makes longer is a term. -/
theorem readTerm_name {name : String} (h : IsIdentifier name.toList) {after : List Char}
    (hrest : ∀ c ∈ after.head?, Text.isIdentifierRest c = false)
    (hafter : ∀ c ∈ (skipBlanks false after).head?, c ∉ [':', '(']) (fuel : Nat) :
    readTerm (fuel + 1) (name.toList ++ after) = some (.ofName name, after) := by
  refine (readTerm_identifier h hrest (fun c hc hcolon => ?_) fuel).2 fun inner hparen => ?_
  · exact hafter c hc (by simp [hcolon])
  · exact hafter '(' (by rw [hparen]; rfl) (by simp)

/-- A name with arguments in parentheses is a term. -/
theorem readTerm_call {name : String} (h : IsIdentifier name.toList) {fuel : Nat}
    {inner after : List Char} {arguments : List Expression} {expand : Bool}
    (hinner : readArguments fuel (skipBlanks true inner) = some (arguments, expand, after)) :
    readTerm (fuel + 1) (name.toList ++ '(' :: inner) =
      some (.call name arguments expand, after) := by
  have hparen := skipBlanks_of_isSolid (show IsSolid '(' by decide) false inner
  rw [(readTerm_identifier h (by simp; decide) (by simp [hparen]) fuel).1 inner hparen, hinner]
  rfl

/-! ### Quoted texts -/

/-- A text is read as an expression wherever it stands in front of another one. -/
structure ReadsAs (text after : List Char) (e : Expression) : Prop where
  /-- No blank is taken off the front of the text. -/
  solid : ∀ lines rest, skipBlanks lines (text ++ (after ++ rest)) = text ++ (after ++ rest)
  reads : ∀ fuel rest, 8 * text.length + 16 ≤ fuel →
    readExpression fuel false (text ++ (after ++ rest)) = some (e, after ++ rest)

theorem readTerm_quoted {cs : List Char} (h : IsVerbatim cs) {fuel : Nat}
    (hfuel : cs.length < fuel) (after : List Char) :
    readTerm (fuel + 1) ('"' :: (cs ++ '"' :: after)) =
      some (.string (String.ofList cs), after) := by
  rw [readTerm, h.readPieces_eq hfuel]
  simp only [Option.bind_eq_bind, Option.bind_some, Expression.ofQuoted, Piece.plain?_ofText]
  rfl

theorem readsAs_quoted {s : String} (h : IsVerbatim s.toList) :
    ReadsAs ('"' :: (s.toList ++ ['"'])) ['\n'] (.string s) := by
  refine ⟨fun lines rest => ?_, fun fuel rest hfuel => ?_⟩
  · rw [List.cons_append, skipBlanks_of_isSolid (by decide)]
  · rw [List.length_cons, List.length_append] at hfuel
    obtain ⟨fuel, rfl⟩ : ∃ n, fuel = n + 3 := ⟨fuel - 3, by omega⟩
    have hterm := @readTerm_quoted s.toList h fuel (by omega) ('\n' :: rest)
    rw [String.ofList_toList] at hterm
    rw [List.cons_append, List.append_assoc]
    exact readExpression_of_readTerm (fun fuel => readUnary_of_isSolid (by decide) (by decide)
      fuel _) hterm (endsExpression_newline rest)

/-! ### Lines of definitions -/

/-- A definition on a line of its own. -/
def definitionLine (indent : Nat) (entry : String × String) : List Char :=
  List.replicate indent ' ' ++ (entry.1.toList ++ ([' ', '=', ' '] ++ (entry.2.toList ++ ['\n'])))

theorem definitionLine_append (indent : Nat) (entry : String × String) (rest : List Char) :
    definitionLine indent entry ++ rest = List.replicate indent ' ' ++
      (entry.1.toList ++ ([' ', '=', ' '] ++ (entry.2.toList ++ (['\n'] ++ rest)))) := by
  simp [definitionLine]

theorem length_definitionLine (indent : Nat) (entry : String × String) :
    (definitionLine indent entry).length =
      indent + entry.1.toList.length + entry.2.toList.length + 4 := by
  simp only [definitionLine, List.length_append, List.length_replicate, List.length_cons,
    List.length_nil]
  omega

/-- A brace that closes is not the start of an expression. -/
theorem readExpression_brace (fuel : Nat) (rest : List Char) :
    readExpression fuel false ('\x7d' :: rest) = none := by
  have hterm : ∀ fuel, readTerm fuel ('\x7d' :: rest) = none := by
    intro fuel
    cases fuel with
    | zero => rfl
    | succ fuel =>
        rw [readTerm, if_neg (by decide), readIdentifier, if_neg (by decide)]
        · rfl
        all_goals simp
  have hoperand : ∀ fuel, readOperand fuel false ('\x7d' :: rest) = none := by
    intro fuel
    cases fuel with
    | zero => rfl
    | succ fuel =>
        rw [readOperand, readUnary_of_isSolid (by decide) (by decide)]
        simp only [hterm]
        rfl
  cases fuel with
  | zero => rfl
  | succ fuel =>
      rw [readExpression, hoperand]
      rfl

/-- The text of a key. -/
def Key.text (key : Key) : String :=
  String.ofList (writeKey true key).text

@[simp] theorem Key.text_ofExpression (e : Expression) : (Key.ofExpression e).text = e.text := by
  cases e <;> rfl

/-- An item with a new key goes to the end of an object. -/
theorem insertItem_of_new {key : Key} {value : Expression} {items : List (Key × Expression)}
    (h : ∀ item ∈ items, item.1.text ≠ key.text) :
    insertItem key value items = items ++ [(key, value)] := by
  induction items with
  | nil => rfl
  | cons item items ih =>
      obtain ⟨hitem, hitems⟩ := List.forall_mem_cons.1 h
      obtain ⟨k, v⟩ := item
      rw [List.cons_append, ← ih hitems]
      cases key with
      | name a =>
          cases k with
          | name b =>
              have hne : a ≠ b := fun hab => hitem (hab ▸ rfl)
              simp [insertItem, hne]
          | value b => rfl
      | value a =>
          cases k with
          | name b => rfl
          | value b =>
              have hne : a.text ≠ b.text := fun hab => hitem hab.symm
              simp [insertItem, hne]

/-- Items with different keys stay as they are. -/
theorem foldl_insertItem {items : List (Key × Expression)}
    (h : (items.map fun item => item.1.text).Nodup) :
    items.foldl (fun object (key, value) => insertItem key value object) [] = items := by
  induction items using List.reverseRecOn with
  | nil => rfl
  | append_singleton items item ih =>
      rw [List.map_append, List.nodup_append] at h
      obtain ⟨hitems, _, hnew⟩ := h
      rw [List.foldl_append, ih hitems, List.foldl_cons, List.foldl_nil]
      exact insertItem_of_new fun other hother =>
        hnew _ (List.mem_map.2 ⟨other, hother, rfl⟩) _ (List.mem_singleton.2 rfl)

section Objects

variable {keys values : String → Expression} {entry : String × String}
  {entries : List (String × String)} {indent : Nat} {closing after : List Char}

theorem readItems_line {key value : Expression} {items : List (Key × Expression)}
    (hkey : ReadsAs entry.1.toList [' ', '=', ' '] key)
    (hvalue : ReadsAs entry.2.toList ['\n'] value) {fuel : Nat} {rest : List Char}
    (hkeyFuel : 8 * entry.1.toList.length + 16 ≤ fuel)
    (hvalueFuel : 8 * entry.2.toList.length + 16 ≤ fuel)
    (hrest : readItems fuel (skipBlanks true rest) = some (items, after)) :
    readItems (fuel + 1) (skipBlanks true (definitionLine indent entry ++ rest)) =
      some ((Key.ofExpression key, value) :: items, after) := by
  rw [definitionLine_append, skipBlanks_indent, hkey.solid, readItems,
    hkey.reads fuel _ hkeyFuel]
  · simp only [Option.bind_eq_bind, Option.bind_some, List.cons_append, List.nil_append, keySign?,
      skipBlanks_space, skipBlanks_of_isSolid (show IsSolid '=' by decide)]
    have hsolid := hvalue.solid false rest
    have hreads := hvalue.reads fuel rest hvalueFuel
    simp only [List.cons_append, List.nil_append] at hsolid hreads
    simp only [hsolid, hreads, Option.bind_some, skipBlanks_line_end, skipToNextLine?_newline,
      hrest]
    rfl
  · intro _ hbrace
    have hreads := hkey.reads fuel (entry.2.toList ++ (['\n'] ++ rest)) hkeyFuel
    rw [hbrace, readExpression_brace] at hreads
    cases hreads

/-- The items of an object come back line by line. -/
theorem readItems_lines
    (hkeys : ∀ entry ∈ entries, ReadsAs entry.1.toList [' ', '=', ' '] (keys entry.1))
    (hvalues : ∀ entry ∈ entries, ReadsAs entry.2.toList ['\n'] (values entry.2))
    (hclosing : skipBlanks true closing = '\x7d' :: after) {fuel : Nat}
    (hfuel : 8 * (entries.flatMap (definitionLine indent)).length + 16 ≤ fuel) :
    readItems fuel (skipBlanks true (entries.flatMap (definitionLine indent) ++ closing)) =
      some (entries.map fun entry => (Key.ofExpression (keys entry.1), values entry.2), after) := by
  obtain ⟨fuel, rfl⟩ : ∃ n, fuel = n + 1 := ⟨fuel - 1, by omega⟩
  induction entries generalizing fuel with
  | nil =>
      rw [List.flatMap_nil, List.nil_append, hclosing, readItems]
      · rfl
      · simp
  | cons entry entries ih =>
      obtain ⟨hkey, hkeys⟩ := List.forall_mem_cons.1 hkeys
      obtain ⟨hvalue, hvalues⟩ := List.forall_mem_cons.1 hvalues
      rw [List.flatMap_cons, List.length_append, length_definitionLine] at hfuel
      obtain ⟨fuel, rfl⟩ : ∃ n, fuel = n + 1 := ⟨fuel - 1, by omega⟩
      rw [List.flatMap_cons, List.append_assoc, List.map_cons]
      exact readItems_line hkey hvalue (by omega) (by omega) (ih hkeys hvalues fuel (by omega))

theorem readsAs_object (hnodup : (entries.map (·.1)).Nodup)
    (hwritten : ∀ entry ∈ entries, (keys entry.1).text = entry.1)
    (hkeys : ∀ entry ∈ entries, ReadsAs entry.1.toList [' ', '=', ' '] (keys entry.1))
    (hvalues : ∀ entry ∈ entries, ReadsAs entry.2.toList ['\n'] (values entry.2))
    (hfor : ∀ entry ∈ entries, ∀ rest, startsFor (entry.1.toList ++ ' ' :: rest) = false) :
    ReadsAs ('\x7b' :: '\n' :: (entries.flatMap (definitionLine indent) ++ ['\n', '\x7d'])) ['\n']
      (.object (entries.map fun entry => (Key.ofExpression (keys entry.1), values entry.2))) := by
  refine ⟨fun lines rest => ?_, fun fuel rest hfuel => ?_⟩
  · rw [List.cons_append, skipBlanks_of_isSolid (by decide)]
  · simp only [List.length_cons, List.length_append, List.length_nil] at hfuel
    obtain ⟨fuel, rfl⟩ : ∃ n, fuel = n + 3 := ⟨fuel - 3, by omega⟩
    have hitems := @readItems_lines keys values entries indent ('\n' :: '\x7d' :: '\n' :: rest)
      ('\n' :: rest) hkeys hvalues (by simp [skipBlanks_of_isSolid (show IsSolid '\x7d' by decide)])
      fuel (by omega)
    have hfor : startsFor (skipBlanks true (entries.flatMap (definitionLine indent) ++
        '\n' :: '\x7d' :: '\n' :: rest)) = false := by
      cases entries with
      | nil => simp [skipBlanks_of_isSolid (show IsSolid '\x7d' by decide), startsFor]
      | cons entry entries =>
          obtain ⟨hkey, _⟩ := List.forall_mem_cons.1 hkeys
          rw [List.flatMap_cons, List.append_assoc, definitionLine_append, skipBlanks_indent,
            hkey.solid]
          exact hfor entry List.mem_cons_self _
    have hnodup' : ((entries.map fun entry => (Key.ofExpression (keys entry.1),
        values entry.2)).map fun item => item.1.text).Nodup := by
      rw [List.map_map]
      refine (List.map_congr_left fun entry hentry => ?_) ▸ hnodup
      exact (Key.text_ofExpression _).trans (hwritten entry hentry) |>.symm
    have hterm : readTerm (fuel + 1) ('\x7b' :: '\n' :: (entries.flatMap (definitionLine indent) ++
        '\n' :: '\x7d' :: '\n' :: rest)) = some (.object (entries.map fun entry =>
          (Key.ofExpression (keys entry.1), values entry.2)), '\n' :: rest) := by
      rw [readTerm, skipBlanks_newline, hfor, hitems]
      simp only [Bool.false_eq_true, if_false, Option.bind_eq_bind, Option.bind_some,
        foldl_insertItem hnodup']
      rfl
    have hread := readExpression_of_readTerm
      (fun fuel => readUnary_of_isSolid (by decide) (by decide) fuel _) hterm
      (endsExpression_newline rest)
    simpa using hread

end Objects

/-! ### Texts of keys and values -/

/-- A text that is read as an expression at the end of a line, where the expression is written as
this text. -/
def IsValueText (text : String) : Prop :=
  ∃ e, ReadsAs text.toList ['\n'] e ∧ e.text = text

/-- A text that can stand in front of an equals sign as the key of an item.  A quoted key would lose
its quotes, and behind an opening brace `for` would start another kind of expression. -/
structure IsKeyText (text : String) : Prop where
  reads : ∃ e, ReadsAs text.toList [' ', '=', ' '] e ∧ e.text = text ∧ ∀ s, e ≠ .string s
  noFor : ∀ rest, startsFor (text.toList ++ ' ' :: rest) = false

theorem exists_of_startsFor {cs : List Char} (h : startsFor cs = true) :
    ∃ c rest, cs = 'f' :: 'o' :: 'r' :: c :: rest ∧ ¬ IsSolid c := by
  unfold startsFor at h
  split at h
  · rename_i c rest
    refine ⟨c, rest, rfl, fun hsolid => hsolid ?_⟩
    simpa [or_assoc] using h
  · cases h

theorem isSolid_of_isIdentifierRest {c : Char} (h : Text.isIdentifierRest c = true) :
    IsSolid c := by
  have hnone : [' ', '\t', '\n', '\r', '#', '/'].any Text.isIdentifierRest = false := by decide
  exact fun hmem => List.any_eq_false.1 hnone c hmem h

/-- A name introduces a for expression only if it is the word that does so, with a blank behind. -/
theorem startsFor_append {cs after : List Char} (h : IsIdentifier cs)
    (hend : ∀ c ∈ after.head?, Text.isIdentifierRest c = false)
    (hfor : cs ≠ ['f', 'o', 'r'] ∨ ∀ c ∈ after.head?, IsSolid c) :
    startsFor (cs ++ after) = false := by
  rw [← Bool.not_eq_true]
  intro hstart
  obtain ⟨c, rest, htext, hblank⟩ := exists_of_startsFor hstart
  rcases cs with _ | ⟨c₁, _ | ⟨c₂, _ | ⟨c₃, _ | ⟨c₄, cs⟩⟩⟩⟩
  · exact h.elim
  · simp only [List.cons_append, List.nil_append, List.cons.injEq] at htext
    rw [htext.2] at hend
    exact absurd (hend 'o' rfl) (by decide)
  · simp only [List.cons_append, List.nil_append, List.cons.injEq] at htext
    rw [htext.2.2] at hend
    exact absurd (hend 'r' rfl) (by decide)
  · simp only [List.cons_append, List.nil_append, List.cons.injEq] at htext
    obtain ⟨rfl, rfl, rfl, rfl⟩ := htext
    exact hblank (hfor.resolve_left (fun hne => hne rfl) c rfl)
  · simp only [List.cons_append, List.cons.injEq] at htext
    obtain ⟨rfl, rfl, rfl, rfl, _⟩ := htext
    exact hblank (isSolid_of_isIdentifierRest (h.2 c₄ (by simp)))

end InfraGraph.Hcl
