import Mathlib.Tactic.Common
import InfraGraph.Json.Record
import InfraGraph.Json.Writer

/-!
# Reading what was written

A value that is written without blanks reads back as itself, as long as its strings have values and
its numbers are texts that reading takes for numbers.  Strings come back character by character, as
every character is written as one piece; values come back by recursion, where a value never needs
more fuel than twice the length of its text.
-/

namespace InfraGraph.Json

/-! ### Strings -/

theorem hexValue?_hexDigit {n : Nat} (h : n < 16) : hexValue? (Text.hexDigit n) = some n := by
  have hall : ∀ n : Fin 16, hexValue? (Text.hexDigit n) = some n.val := by decide
  exact hall ⟨n, h⟩

/-- The piece that a character is written as. -/
def pieceOf (c : Char) : Piece :=
  if c.toNat < 32 ∧ c ∉ ['\n', '\r', '\t', '\x08', '\x0c'] then .unit c.toNat else .char c

theorem readPieces_escape {letter c : Char} (h : shortEscape? letter = some c)
    (hletter : letter ≠ 'u') (tail : List Char) :
    readPieces ('\\' :: letter :: tail) =
      (readPieces tail).map fun read => (.char c :: read.1, read.2) := by
  rw [readPieces, h]
  · rfl
  · intro _ _ _ _ _ hu
    exact absurd hu hletter

theorem readPieces_code {c : Char} (h : c.toNat < 32) (tail : List Char) :
    readPieces ('\\' :: 'u' :: '0' :: '0' :: Text.hexDigit (c.toNat / 16) ::
        Text.hexDigit (c.toNat % 16) :: tail) =
      (readPieces tail).map fun read => (.unit c.toNat :: read.1, read.2) := by
  have hzero : hexValue? '0' = some 0 := by decide
  have hcode : fourHex? '0' '0' (Text.hexDigit (c.toNat / 16)) (Text.hexDigit (c.toNat % 16)) =
      some c.toNat := by
    simp only [fourHex?, hzero, hexValue?_hexDigit (show c.toNat / 16 < 16 by omega),
      hexValue?_hexDigit (show c.toNat % 16 < 16 by omega)]
    simp only [Option.bind_eq_bind, Option.bind_some, Option.pure_def, Option.some.injEq]
    omega
  rw [readPieces, hcode]
  rfl

theorem readPieces_plain {c : Char} (h : 32 ≤ c.toNat) (hquote : c ≠ '"') (hslash : c ≠ '\\')
    (tail : List Char) :
    readPieces (c :: tail) = (readPieces tail).map fun read => (.char c :: read.1, read.2) := by
  have hlow : ¬ (c.toNat < 32 ∨ c = '\\') := by
    rw [not_or]
    exact ⟨Nat.not_lt.2 h, hslash⟩
  rw [readPieces, if_neg hlow]
  · exact hquote
  · intro _ _ _ _ _ hu
    exact absurd hu hslash
  · intro _ _ hu
    exact absurd hu hslash

/-- A written character is read as one piece. -/
theorem readPieces_writeChar (c : Char) (tail : List Char) :
    readPieces (writeChar c ++ tail) =
      (readPieces tail).map fun read => (pieceOf c :: read.1, read.2) := by
  unfold writeChar
  split
  · subst_vars; exact readPieces_escape (by decide) (by decide) tail
  split
  · subst_vars; exact readPieces_escape (by decide) (by decide) tail
  split
  · subst_vars; exact readPieces_escape (by decide) (by decide) tail
  split
  · subst_vars; exact readPieces_escape (by decide) (by decide) tail
  split
  · subst_vars; exact readPieces_escape (by decide) (by decide) tail
  split
  · subst_vars; exact readPieces_escape (by decide) (by decide) tail
  split
  · subst_vars; exact readPieces_escape (by decide) (by decide) tail
  split
  · rename_i hlow
    have hpiece : pieceOf c = .unit c.toNat := by simp_all [pieceOf]
    rw [hpiece]
    exact readPieces_code hlow tail
  · rename_i hquote hslash _ _ _ _ _ hlow
    have hpiece : pieceOf c = .char c := by simp [pieceOf, hlow]
    rw [hpiece]
    exact readPieces_plain (Nat.not_lt.1 hlow) hquote hslash tail

theorem readPieces_flatMap_writeChar (cs after : List Char) :
    readPieces (cs.flatMap writeChar ++ '"' :: after) = some (cs.map pieceOf, after) := by
  induction cs with
  | nil => rfl
  | cons c cs ih => rw [List.flatMap_cons, List.append_assoc, readPieces_writeChar, ih]; rfl

/-- A unit that isn't half of a surrogate pair stands for a character, whatever follows. -/
theorem joinPieces_unit {code : Nat} {rest : List Piece} {cs : List Char} (hcode : code < 0xD800)
    (h : joinPieces rest = some cs) :
    joinPieces (.unit code :: rest) = some (Char.ofNat code :: cs) := by
  have hhigh : ¬ 0xD800 ≤ code := Nat.not_le.2 hcode
  cases rest with
  | nil => cases h; simp [joinPieces, hhigh]
  | cons piece rest =>
      cases piece with
      | char c =>
          rw [joinPieces] at h
          simp only [joinPieces, hhigh, false_and, if_false, h, Option.map_some]
      | unit low => simp [joinPieces, hhigh, h]

theorem joinPieces_map_pieceOf (cs : List Char) : joinPieces (cs.map pieceOf) = some cs := by
  induction cs with
  | nil => rfl
  | cons c cs ih =>
      rw [List.map_cons]
      by_cases hlow : c.toNat < 32 ∧ c ∉ ['\n', '\r', '\t', '\x08', '\x0c']
      · have hcode : c.toNat < 0xD800 := Nat.lt_trans hlow.1 (by decide)
        rw [pieceOf, if_pos hlow, joinPieces_unit hcode ih, Char.ofNat_toNat]
      · rw [pieceOf, if_neg hlow, joinPieces, ih]
        rfl

theorem readString_writeString (s : String) (after : List Char) :
    ∃ text, writeString s ++ after = '"' :: text ∧ readString text = some (some s, after) := by
  refine ⟨s.toList.flatMap writeChar ++ '"' :: after, by simp [writeString], ?_⟩
  rw [readString, readPieces_flatMap_writeChar, Option.map_some]
  simp only [joinPieces_map_pieceOf, Option.map_some, String.ofList_toList]

/-! ### Numbers -/

/-- The text behind a value starts with none of the characters that a number may go on with. -/
def EndsValue (after : List Char) : Prop :=
  ∀ c rest, after = c :: rest → c = ',' ∨ c = ']' ∨ c = '\x7d' ∨ c = '\n'

theorem endsValue_nil : EndsValue [] := by
  intro c rest h
  cases h

theorem endsValue_cons {c : Char} (h : c = ',' ∨ c = ']' ∨ c = '\x7d' ∨ c = '\n')
    (rest : List Char) : EndsValue (c :: rest) := by
  intro c' rest' heq
  obtain ⟨rfl, -⟩ := List.cons.inj heq
  exact h

/-- The text is taken for a number, wherever a value may stand. -/
structure IsNumeral (literal : List Char) : Prop where
  start : ∃ c rest, literal = c :: rest ∧ (c = '-' ∨ c.isDigit = true)
  read : ∀ after, EndsValue after → ∃ parts, readNumber (literal ++ after) = some (parts, after)

theorem EndsValue.isDigit_eq_false {after : List Char} (h : EndsValue after) {c : Char}
    {rest : List Char} (hcons : after = c :: rest) : c.isDigit = false := by
  rcases h c rest hcons with rfl | rfl | rfl | rfl <;> decide

theorem spanDigits_append {digits after : List Char} (hdigits : ∀ c ∈ digits, c.isDigit = true)
    (hafter : ∀ c rest, after = c :: rest → c.isDigit = false) :
    spanDigits (digits ++ after) = (digits, after) := by
  have hnone : after.takeWhile Char.isDigit = [] ∧ after.dropWhile Char.isDigit = after := by
    cases after with
    | nil => exact ⟨rfl, rfl⟩
    | cons c rest => simp [hafter c rest rfl]
  rw [spanDigits, List.takeWhile_append_of_pos hdigits, List.dropWhile_append_of_pos hdigits,
    hnone.1, hnone.2, List.append_nil]

theorem readExponent_of_endsValue {after : List Char} (h : EndsValue after) :
    readExponent after = (none, after) := by
  cases after with
  | nil => rfl
  | cons c rest =>
      have hc : ¬ (c = 'e' ∨ c = 'E') := by
        rcases h c rest rfl with rfl | rfl | rfl | rfl <;> decide
      simp only [readExponent, hc, if_false]

/-- The text of digits behind a point. -/
def fractionText : Option (List Char) → List Char
  | none => []
  | some digits => '.' :: digits

/-- The text of an exponent. -/
def exponentText : Option (Bool × List Char) → List Char
  | none => []
  | some (negative, digits) => 'e' :: (if negative then '-' :: digits else digits)

namespace NumberParts

/-- The text of a number with given parts. -/
def text (p : NumberParts) : List Char :=
  (if p.negative then ['-'] else []) ++
    (p.whole ++ (fractionText p.fraction ++ exponentText p.exponent))

/-- The parts are digits, where digits have to be, and no zero leads other digits. -/
structure IsWellFormed (p : NumberParts) : Prop where
  whole_ne_nil : p.whole ≠ []
  isDigit_whole : ∀ c ∈ p.whole, c.isDigit = true
  leadingZero : p.whole.head? = some '0' → p.whole.length = 1
  fraction : ∀ digits, p.fraction = some digits → digits ≠ [] ∧ ∀ c ∈ digits, c.isDigit = true
  exponent : ∀ negative digits, p.exponent = some (negative, digits) →
    digits ≠ [] ∧ ∀ c ∈ digits, c.isDigit = true

end NumberParts

/-- The sign at the start of a text. -/
def readSign : List Char → Bool × List Char
  | '-' :: rest => (true, rest)
  | rest => (false, rest)

/-- The point at the start of a text and the digits behind it. -/
def readFraction : List Char → Option (List Char) × List Char
  | '.' :: rest => (some (spanDigits rest).1, (spanDigits rest).2)
  | rest => (none, rest)

theorem readNumber_eq (cs : List Char) :
    readNumber cs =
      let whole := spanDigits (readSign cs).2
      let fraction := readFraction whole.2
      let exponent := readExponent fraction.2
      if whole.1 = [] ∨ (whole.1.head? = some '0' ∧ whole.1.length ≠ 1) ∨ fraction.1 = some [] ∨
          exponent.1.map (·.2) = some [] then none
      else some (⟨(readSign cs).1, whole.1, fraction.1, exponent.1⟩, exponent.2) := by
  rfl

theorem readSign_append (negative : Bool) {cs : List Char} (h : ∀ rest, cs ≠ '-' :: rest) :
    readSign ((if negative then ['-'] else []) ++ cs) = (negative, cs) := by
  cases negative with
  | true => rfl
  | false =>
      rw [if_neg Bool.false_ne_true, List.nil_append]
      cases cs with
      | nil => rfl
      | cons c rest =>
          rw [readSign]
          rintro rest' hcons
          exact h rest' hcons

theorem readFraction_append {fraction : Option (List Char)}
    (h : ∀ digits, fraction = some digits → digits ≠ [] ∧ ∀ c ∈ digits, c.isDigit = true)
    {after : List Char} (hafter : ∀ c rest, after = c :: rest → c.isDigit = false ∧ c ≠ '.') :
    readFraction (fractionText fraction ++ after) = (fraction, after) := by
  cases fraction with
  | none =>
      cases after with
      | nil => rfl
      | cons c rest =>
          rw [fractionText, List.nil_append, readFraction]
          rintro rest' hcons
          exact (hafter c rest rfl).2 (List.cons.inj hcons).1
  | some digits =>
      rw [fractionText, List.cons_append, readFraction,
        spanDigits_append (h digits rfl).2 fun c rest hcons => (hafter c rest hcons).1]

theorem readExponent_exponentText {exponent : Option (Bool × List Char)}
    (h : ∀ negative digits, exponent = some (negative, digits) →
      digits ≠ [] ∧ ∀ c ∈ digits, c.isDigit = true) {after : List Char} (hafter : EndsValue after) :
    readExponent (exponentText exponent ++ after) = (exponent, after) := by
  cases exponent with
  | none => exact readExponent_of_endsValue hafter
  | some signed =>
      obtain ⟨negative, digits⟩ := signed
      obtain ⟨hne, hdigits⟩ := h negative digits rfl
      have hspan := spanDigits_append hdigits fun c rest => hafter.isDigit_eq_false
      cases negative with
      | true =>
        simp [exponentText, readExponent, hspan]
      | false =>
        obtain ⟨c, rest, rfl⟩ := List.exists_cons_of_ne_nil hne
        have hc : c.isDigit = true := hdigits c (by simp)
        have hminus : c ≠ '-' := by rintro rfl; revert hc; decide
        have hplus : c ≠ '+' := by rintro rfl; revert hc; decide
        rw [List.cons_append] at hspan
        simp [exponentText, readExponent, hspan, hminus, hplus]

theorem EndsValue.head_exponentText {after : List Char} (h : EndsValue after)
    (exponent : Option (Bool × List Char)) {c : Char} {rest : List Char}
    (hcons : exponentText exponent ++ after = c :: rest) : c.isDigit = false ∧ c ≠ '.' := by
  cases exponent with
  | none => rcases h c rest hcons with rfl | rfl | rfl | rfl <;> decide
  | some signed =>
      obtain rfl : 'e' = c := (List.cons.inj hcons).1
      decide

/-- The parts of a number are read off its text. -/
theorem readNumber_text {p : NumberParts} (h : p.IsWellFormed) {after : List Char}
    (hafter : EndsValue after) : readNumber (p.text ++ after) = some (p, after) := by
  obtain ⟨negative, whole, fraction, exponent⟩ := p
  obtain ⟨hne, hwhole, hlead, hfraction, hexponent⟩ := h
  dsimp only at hne hwhole hlead hfraction hexponent
  have hsign : ∀ rest, whole ++ (fractionText fraction ++ (exponentText exponent ++ after)) ≠
      '-' :: rest := by
    obtain ⟨c, cs, rfl⟩ := List.exists_cons_of_ne_nil hne
    intro rest hcons
    obtain rfl := (List.cons.inj hcons).1
    exact absurd (hwhole '-' (by simp)) (by decide)
  have hspan : spanDigits (whole ++ (fractionText fraction ++ (exponentText exponent ++ after))) =
      (whole, fractionText fraction ++ (exponentText exponent ++ after)) := by
    refine spanDigits_append hwhole fun c rest hcons => ?_
    cases fraction with
    | none => exact (hafter.head_exponentText exponent hcons).1
    | some digits =>
        obtain rfl : '.' = c := (List.cons.inj hcons).1
        decide
  have hread := readFraction_append hfraction fun c rest => hafter.head_exponentText exponent
  rw [readNumber_eq, NumberParts.text, List.append_assoc, List.append_assoc, List.append_assoc,
    readSign_append negative hsign]
  simp only [hspan, hread, readExponent_exponentText hexponent hafter]
  rw [if_neg]
  rintro (hnil | ⟨hzero, hlength⟩ | hnil | hnil)
  · exact hne hnil
  · exact hlength (hlead hzero)
  · exact (hfraction [] hnil).1 rfl
  · obtain ⟨⟨signed, digits⟩, hsigned, rfl⟩ := Option.map_eq_some_iff.1 hnil
    exact (hexponent signed [] hsigned).1 rfl

/-- Digits without a leading zero are read as the digits before the point. -/
theorem readNumber_digits {digits after : List Char} (hne : digits ≠ [])
    (hdigits : ∀ c ∈ digits, c.isDigit = true) (hzero : digits.head? = some '0' → digits.length = 1)
    (hafter : EndsValue after) :
    readNumber (digits ++ after) = some (⟨false, digits, none, none⟩, after) := by
  have hread := readNumber_text (p := ⟨false, digits, none, none⟩)
    ⟨hne, hdigits, hzero, by simp, by simp⟩ hafter
  rwa [NumberParts.text, fractionText, exponentText, List.append_nil, List.append_nil,
    if_neg Bool.false_ne_true, List.nil_append] at hread

/-- The digits of a number start with a zero only if there is no other digit. -/
theorem head?_toDigits_ne {n : Nat} (h : n ≠ 0) : (Nat.toDigits 10 n).head? ≠ some '0' := by
  induction n using Nat.strongRecOn with
  | ind n ih =>
      rw [Nat.toDigits_eq_if (by decide)]
      split
      · rename_i hsmall
        have hall : ∀ n : Fin 10, n.val ≠ 0 → n.val.digitChar ≠ '0' := by decide
        simpa using hall ⟨n, hsmall⟩ h
      · obtain ⟨c, rest, hcons⟩ := List.exists_cons_of_ne_nil (@Nat.toDigits_ne_nil (n / 10) 10)
        have hfront := ih (n / 10) (by omega) (by omega)
        rw [hcons] at hfront ⊢
        exact hfront

theorem isDigit_of_mem_toDigits {n : Nat} {c : Char} (h : c ∈ Nat.toDigits 10 n) :
    c.isDigit = true :=
  Nat.isDigit_of_mem_toDigits (by decide) (by decide) h

theorem readNumber_toDigits (n : Nat) {after : List Char} (hafter : EndsValue after) :
    readNumber (Nat.toDigits 10 n ++ after) =
      some (⟨false, Nat.toDigits 10 n, none, none⟩, after) := by
  refine readNumber_digits Nat.toDigits_ne_nil (fun c => isDigit_of_mem_toDigits)
    (fun hzero => ?_) hafter
  obtain rfl : n = 0 := by_contra fun hne => head?_toDigits_ne hne hzero
  rfl

theorem isNumeral_toDigits (n : Nat) : IsNumeral (Nat.toDigits 10 n) := by
  obtain ⟨c, rest, hcons⟩ := List.exists_cons_of_ne_nil (@Nat.toDigits_ne_nil n 10)
  have hc : c.isDigit = true := isDigit_of_mem_toDigits (by rw [hcons]; exact List.mem_cons_self)
  exact ⟨⟨c, rest, hcons, .inr hc⟩, fun after hafter => ⟨_, readNumber_toDigits n hafter⟩⟩

/-- The digits of a natural number are read as it, unless it is beyond the limit. -/
theorem nat?_ofNat_eq (limit n : Nat) :
    nat? limit (.ofNat n) = if n ≤ limit then some n else none := by
  have hread := readNumber_toDigits n endsValue_nil
  have hvalue : digitsValue (Nat.toDigits 10 n) = n := Nat.ofDigitChars_ten_toDigits
  rw [List.append_nil] at hread
  rw [ofNat, nat?, hread, Option.bind_some]
  simp [NumberParts.nat?, hvalue]

theorem nat?_ofNat {limit n : Nat} (h : n ≤ limit) : nat? limit (.ofNat n) = some n := by
  rw [nat?_ofNat_eq, if_pos h]

/-! ### Values -/

theorem skipBlanks_cons {c : Char} (h : isBlank c = false) (rest : List Char) :
    skipBlanks (c :: rest) = c :: rest := by
  rw [skipBlanks, List.dropWhile_cons_of_neg (by simp [h])]

theorem readValue_string (s : String) (after : List Char) (fuel : Nat) :
    readValue (fuel + 1) (writeString s ++ after) = some (.string (some s), after) := by
  obtain ⟨text, hwrite, hread⟩ := readString_writeString s after
  rw [hwrite, readValue, skipBlanks_cons (by decide)]
  simp only [hread, Option.map_some]

/-- The strings of a value have values, and its numbers are numerals. -/
inductive Readable : Json → Prop
  | null : Readable .null
  | bool (b : Bool) : Readable (.bool b)
  | number {literal : List Char} (h : IsNumeral literal) : Readable (.number literal)
  | string (s : String) : Readable (.string (some s))
  | array {elements : List Json} (h : ∀ element ∈ elements, Readable element) :
      Readable (.array elements)
  | object {members : List (Option String × Json)}
      (keys : ∀ member ∈ members, member.1.isSome = true)
      (values : ∀ member ∈ members, Readable member.2) : Readable (.object members)

/-- A written value starts with a character that neither is a blank nor ends an array. -/
theorem exists_write_eq_cons {j : Json} (h : j.Readable) :
    ∃ c rest, j.write = c :: rest ∧ isBlank c = false ∧ c ≠ ']' := by
  cases h with
  | null => exact ⟨'n', _, rfl, by decide, by decide⟩
  | bool b =>
      cases b with
      | false => exact ⟨'f', _, rfl, by decide, by decide⟩
      | true => exact ⟨'t', _, rfl, by decide, by decide⟩
  | number hnumeral =>
      obtain ⟨⟨c, rest, rfl, hc⟩, _⟩ := hnumeral
      refine ⟨c, rest, rfl, ?_, ?_⟩
      · rw [Bool.eq_false_iff]
        intro hblank
        simp only [isBlank, Bool.or_eq_true, decide_eq_true_eq] at hblank
        rcases hblank with ((rfl | rfl) | rfl) | rfl <;> revert hc <;> decide
      · rintro rfl
        revert hc
        decide
  | string s => exact ⟨'"', _, rfl, by decide, by decide⟩
  | array _ => exact ⟨'[', _, rfl, by decide, by decide⟩
  | object _ _ => exact ⟨'\x7b', _, rfl, by decide, by decide⟩

theorem readNumberLiteral_append {literal after : List Char} (h : IsNumeral literal)
    (hafter : EndsValue after) :
    readNumberLiteral (literal ++ after) = some (.number literal, after) := by
  obtain ⟨parts, hparts⟩ := h.read after hafter
  rw [readNumberLiteral, hparts, Option.map_some]
  simp

theorem readValue_number {literal after : List Char} (h : IsNumeral literal)
    (hafter : EndsValue after) (fuel : Nat) :
    readValue (fuel + 1) (literal ++ after) = some (.number literal, after) := by
  have hread := readNumberLiteral_append h hafter
  obtain ⟨c, rest, hcons, hblank, _⟩ := exists_write_eq_cons (.number h)
  obtain rfl : literal = c :: rest := hcons
  obtain ⟨c', rest', heq, hc⟩ := h.start
  obtain ⟨rfl, rfl⟩ := List.cons.inj heq
  -- No other kind of value starts with a sign or a digit.
  have hother : c ∉ ['"', '[', '\x7b', 'n', 't', 'f'] := by
    simp only [List.mem_cons, List.not_mem_nil, or_false]
    rintro (rfl | rfl | rfl | rfl | rfl | rfl) <;> revert hc <;> decide
  simp only [List.mem_cons, List.not_mem_nil, or_false, not_or] at hother
  rw [List.cons_append] at hread ⊢
  rw [readValue, skipBlanks_cons hblank]
  split <;> simp_all

theorem readElements_cons {element : Json} {text rest : List Char} {fuel : Nat}
    {elements : List Json} {after : List Char}
    (hvalue : readValue fuel text = some (element, ',' :: rest))
    (hrest : readElements fuel rest = some (elements, after)) :
    readElements (fuel + 1) text = some (element :: elements, after) := by
  rw [readElements, hvalue]
  simp only [skipBlanks_cons (show isBlank ',' = false by decide), hrest, Option.map_some]

theorem readElements_last {element : Json} {text left after : List Char} {fuel : Nat}
    (hvalue : readValue fuel text = some (element, left)) (hleft : skipBlanks left = ']' :: after) :
    readElements (fuel + 1) text = some ([element], after) := by
  rw [readElements, hvalue]
  simp only [hleft]

theorem readMembers_cons {key : String} {value : Json} {text rest : List Char} {fuel : Nat}
    {members : List (Option String × Json)} {after : List Char}
    (hvalue : readValue fuel text = some (value, ',' :: rest))
    (hrest : readMembers fuel rest = some (members, after)) :
    readMembers (fuel + 1) (writeString key ++ ':' :: text) =
      some ((some key, value) :: members, after) := by
  obtain ⟨keyText, hwrite, hread⟩ := readString_writeString key (':' :: text)
  rw [hwrite, readMembers, skipBlanks_cons (by decide)]
  simp only [hread, skipBlanks_cons (show isBlank ':' = false by decide), hvalue,
    skipBlanks_cons (show isBlank ',' = false by decide), hrest, Option.map_some]

theorem readMembers_last {key : String} {value : Json} {text left after : List Char} {fuel : Nat}
    (hvalue : readValue fuel text = some (value, left)) (hleft : skipBlanks left = '\x7d' :: after) :
    readMembers (fuel + 1) (writeString key ++ ':' :: text) =
      some ([(some key, value)], after) := by
  obtain ⟨keyText, hwrite, hread⟩ := readString_writeString key (':' :: text)
  rw [hwrite, readMembers, skipBlanks_cons (by decide)]
  simp only [hread, skipBlanks_cons (show isBlank ':' = false by decide), hvalue, hleft]

theorem readValue_array {text after : List Char} {elements : List Json} {fuel : Nat}
    (hhead : (skipBlanks text).head? ≠ some ']')
    (h : readElements fuel text = some (elements, after)) :
    readValue (fuel + 1) ('[' :: text) = some (.array elements, after) := by
  rw [readValue, skipBlanks_cons (by decide)]
  simp only [h, Option.map_some]
  split
  · rename_i hend
    exact absurd (congrArg List.head? hend) hhead
  · rfl

theorem readValue_object {text after : List Char} {members : List (Option String × Json)}
    {fuel : Nat} (hhead : (skipBlanks text).head? ≠ some '\x7d')
    (h : readMembers fuel text = some (members, after)) :
    readValue (fuel + 1) ('\x7b' :: text) = some (.object members, after) := by
  rw [readValue, skipBlanks_cons (by decide)]
  simp only [h, Option.map_some]
  split
  · rename_i hend
    exact absurd (congrArg List.head? hend) hhead
  · rfl

theorem writeElements_cons_cons (element next : Json) (rest : List Json) :
    writeElements (element :: next :: rest) =
      element.write ++ ',' :: writeElements (next :: rest) := rfl

theorem writeMembers_cons_cons (key : Option String) (value : Json) (next : Option String × Json)
    (rest : List (Option String × Json)) :
    writeMembers ((key, value) :: next :: rest) =
      writeString (key.getD "") ++ ':' :: value.write ++ ',' :: writeMembers (next :: rest) := rfl

theorem exists_writeElements_eq (element : Json) (rest : List Json) :
    ∃ more, writeElements (element :: rest) = element.write ++ more := by
  cases rest with
  | nil => exact ⟨[], by rw [writeElements, List.append_nil]⟩
  | cons next rest => exact ⟨_, rfl⟩

theorem exists_writeMembers_eq (member : Option String × Json)
    (rest : List (Option String × Json)) :
    ∃ more, writeMembers (member :: rest) = '"' :: more := by
  cases rest with
  | nil => exact ⟨_, rfl⟩
  | cons next rest => exact ⟨_, rfl⟩

/-- The written value is taken off a text, whatever may follow it. -/
def ReadsBack (j : Json) : Prop :=
  ∀ fuel after, 2 * j.write.length ≤ fuel → EndsValue after →
    readValue fuel (j.write ++ after) = some (j, after)

theorem readElements_write (element : Json) (rest : List Json)
    (h : ∀ j ∈ element :: rest, j.ReadsBack) {fuel : Nat} {after : List Char}
    (hfuel : 2 * (writeElements (element :: rest)).length + 1 ≤ fuel) :
    readElements fuel (writeElements (element :: rest) ++ ']' :: after) =
      some (element :: rest, after) := by
  obtain ⟨fuel, rfl⟩ : ∃ n, fuel = n + 1 := ⟨fuel - 1, by omega⟩
  rw [List.forall_mem_cons] at h
  induction rest generalizing element fuel with
  | nil =>
      rw [writeElements] at hfuel ⊢
      exact readElements_last (h.1 _ _ (by omega) (endsValue_cons (by decide) after))
        (skipBlanks_cons (by decide) after)
  | cons next rest ih =>
      rw [writeElements_cons_cons, List.length_append, List.length_cons] at hfuel
      rw [writeElements_cons_cons, List.append_assoc, List.cons_append]
      obtain ⟨fuel, rfl⟩ : ∃ n, fuel = n + 1 := ⟨fuel - 1, by omega⟩
      exact readElements_cons (h.1 _ _ (by omega) (endsValue_cons (by decide) _))
        (ih next (List.forall_mem_cons.1 h.2) fuel (by omega))

theorem readMembers_write (member : Option String × Json) (rest : List (Option String × Json))
    (hkeys : ∀ m ∈ member :: rest, m.1.isSome = true)
    (hvalues : ∀ m ∈ member :: rest, m.2.ReadsBack) {fuel : Nat} {after : List Char}
    (hfuel : 2 * (writeMembers (member :: rest)).length + 1 ≤ fuel) :
    readMembers fuel (writeMembers (member :: rest) ++ '\x7d' :: after) =
      some (member :: rest, after) := by
  obtain ⟨fuel, rfl⟩ : ∃ n, fuel = n + 1 := ⟨fuel - 1, by omega⟩
  rw [List.forall_mem_cons] at hkeys hvalues
  induction rest generalizing member fuel with
  | nil =>
      obtain ⟨_ | key, value⟩ := member
      · cases hkeys.1
      · rw [writeMembers, List.length_append, List.length_cons] at hfuel
        rw [writeMembers, List.append_assoc, List.cons_append]
        have hvalue : value.ReadsBack := hvalues.1
        exact readMembers_last (hvalue _ _ (by omega) (endsValue_cons (by decide) after))
          (skipBlanks_cons (by decide) after)
  | cons next rest ih =>
      obtain ⟨_ | key, value⟩ := member
      · cases hkeys.1
      · rw [writeMembers_cons_cons, List.length_append, List.length_append, List.length_cons,
          List.length_cons] at hfuel
        rw [writeMembers_cons_cons, List.append_assoc, List.append_assoc, List.cons_append,
          List.cons_append]
        obtain ⟨fuel, rfl⟩ : ∃ n, fuel = n + 1 := ⟨fuel - 1, by omega⟩
        have hvalue : value.ReadsBack := hvalues.1
        exact readMembers_cons (hvalue _ _ (by omega) (endsValue_cons (by decide) _))
          (ih next (List.forall_mem_cons.1 hkeys.2) (List.forall_mem_cons.1 hvalues.2) fuel
            (by omega))

theorem Readable.exists_fuel_eq {j : Json} (h : j.Readable) {fuel : Nat}
    (hfuel : 2 * j.write.length ≤ fuel) : ∃ n, fuel = n + 1 := by
  obtain ⟨c, rest, hcons, _⟩ := exists_write_eq_cons h
  rw [hcons, List.length_cons] at hfuel
  exact ⟨fuel - 1, by omega⟩

theorem readsBack_array {elements : List Json} (hreadable : ∀ j ∈ elements, j.Readable)
    (h : ∀ j ∈ elements, j.ReadsBack) : ReadsBack (.array elements) := by
  intro fuel after hfuel _
  obtain ⟨fuel, rfl⟩ := (Readable.array hreadable).exists_fuel_eq hfuel
  rw [write, List.append_assoc, List.singleton_append]
  simp only [write, List.length_append, List.length_cons, List.length_nil] at hfuel
  cases elements with
  | nil => simp [readValue, writeElements, skipBlanks, isBlank]
  | cons element rest =>
      have hread : readElements fuel (writeElements (element :: rest) ++ ']' :: after) =
          some (element :: rest, after) := readElements_write element rest h (by omega)
      obtain ⟨more, hmore⟩ := exists_writeElements_eq element rest
      obtain ⟨c, text, hcons, hblank, hc⟩ := exists_write_eq_cons (hreadable element (by simp))
      rw [List.cons_append]
      refine readValue_array ?_ hread
      rw [hmore, hcons, List.append_assoc, List.cons_append, skipBlanks_cons hblank]
      simpa using hc

theorem readsBack_object {members : List (Option String × Json)}
    (hkeys : ∀ m ∈ members, m.1.isSome = true) (h : ∀ m ∈ members, m.2.ReadsBack) :
    ReadsBack (.object members) := by
  intro fuel after hfuel _
  rw [write, List.append_assoc, List.singleton_append]
  simp only [write, List.length_append, List.length_cons, List.length_nil] at hfuel
  obtain ⟨fuel, rfl⟩ : ∃ n, fuel = n + 1 := ⟨fuel - 1, by omega⟩
  cases members with
  | nil => simp [readValue, writeMembers, skipBlanks, isBlank]
  | cons member rest =>
      have hread : readMembers fuel (writeMembers (member :: rest) ++ '\x7d' :: after) =
          some (member :: rest, after) := readMembers_write member rest hkeys h (by omega)
      obtain ⟨more, hmore⟩ := exists_writeMembers_eq member rest
      rw [List.cons_append]
      refine readValue_object ?_ hread
      rw [hmore, List.cons_append, skipBlanks_cons (by decide)]
      simp

theorem Readable.readsBack {j : Json} (h : j.Readable) : j.ReadsBack := by
  induction h with
  | null =>
      intro fuel after hfuel _
      obtain ⟨fuel, rfl⟩ := Readable.null.exists_fuel_eq hfuel
      simp [readValue, write, skipBlanks, isBlank]
  | bool b =>
      intro fuel after hfuel _
      obtain ⟨fuel, rfl⟩ := (Readable.bool b).exists_fuel_eq hfuel
      cases b <;> simp [readValue, write, skipBlanks, isBlank]
  | number hnumeral =>
      intro fuel after hfuel hafter
      obtain ⟨fuel, rfl⟩ := (Readable.number hnumeral).exists_fuel_eq hfuel
      exact readValue_number hnumeral hafter fuel
  | string s =>
      intro fuel after hfuel _
      obtain ⟨fuel, rfl⟩ := (Readable.string s).exists_fuel_eq hfuel
      exact readValue_string s after fuel
  | array h ih => exact readsBack_array h ih
  | object keys _ ih => exact readsBack_object keys ih

/-- A text that was written is read as the value that it was written from. -/
theorem parse?_compactText {j : Json} (h : j.Readable) : parse? j.compactText = some j := by
  have hread := h.readsBack (2 * j.write.length + 2) [] (by omega) endsValue_nil
  rw [List.append_nil] at hread
  simp [parse?, compactText, hread, skipBlanks]

end InfraGraph.Json
