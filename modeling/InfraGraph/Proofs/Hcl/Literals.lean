import InfraGraph.Proofs.Hcl.Values

/-!
# Literals and what is written for them

A literal is a quoted text, a number, a truth value or a list of literals, which may be empty.  Each
literal is read from its text.  What is written for it again is the same text, unless a list in it
goes on behind an element that ends in an empty list: there the writer leaves out the comma.
-/

namespace InfraGraph.Hcl

/-- A printable ASCII character that means itself between quotes. -/
def IsPrintable (c : Char) : Prop :=
  32 ≤ c.toNat ∧ c.toNat ≤ 126 ∧ c ∉ ['"', '\\', '$', '%']

instance (c : Char) : Decidable (IsPrintable c) :=
  inferInstanceAs (Decidable (32 ≤ c.toNat ∧ c.toNat ≤ 126 ∧ c ∉ ['"', '\\', '$', '%']))

section Printable

variable {c : Char} {cs : List Char}

theorem IsPrintable.escapeChar_eq (h : IsPrintable c) : escapeChar c = [c] := by
  obtain ⟨hlow, _, hmem⟩ := h
  have hcontrol : ∀ d : Char, d.toNat < 32 → c ≠ d := by
    rintro d hd rfl
    omega
  simp only [List.mem_cons, List.not_mem_nil, or_false, not_or] at hmem
  rw [escapeChar, if_neg hmem.1, if_neg hmem.2.1, if_neg (hcontrol _ (by decide)),
    if_neg (hcontrol _ (by decide)), if_neg (hcontrol _ (by decide)),
    if_neg (hcontrol _ (by decide)), if_neg (hcontrol _ (by decide)), if_neg (by omega)]

theorem IsPrintable.not_sigil (h : IsPrintable c) : c ∉ ['$', '%'] := by
  have hmem := h.2.2
  simp only [List.mem_cons, List.not_mem_nil, or_false, not_or] at hmem ⊢
  exact hmem.2.2

theorem not_startsCode_of_isPrintable (h : IsPrintable c) : ¬ StartsCode (c :: cs) := by
  rintro ⟨sigil, hsigil, rest, heq⟩
  exact h.not_sigil ((List.cons.inj heq).1 ▸ hsigil)

theorem isVerbatim_of_isPrintable (h : ∀ c ∈ cs, IsPrintable c) : IsVerbatim cs := by
  refine ⟨fun hmem => absurd (h _ hmem) (by decide), fun hmem => absurd (h _ hmem) (by decide), ?_⟩
  induction cs with
  | nil => exact .nil
  | cons c cs ih =>
      obtain ⟨hc, hcs⟩ := List.forall_mem_cons.1 h
      exact List.isChain_cons.2 ⟨fun _ _ hcode => hc.not_sigil hcode.1, ih hcs⟩

/-- Printable characters are not escaped. -/
theorem escapeText_of_isPrintable (h : ∀ c ∈ cs, IsPrintable c) : escapeText cs = cs := by
  induction cs with
  | nil => rfl
  | cons c cs ih =>
      obtain ⟨hc, hcs⟩ := List.forall_mem_cons.1 h
      rw [escapeText_char (not_startsCode_of_isPrintable hc), hc.escapeChar_eq, ih hcs,
        List.singleton_append]

end Printable

namespace Expression

/-- A text is a literal, and stands for an expression. -/
inductive IsLiteral : List Char → Expression → Prop
  | string {s : String} (h : ∀ c ∈ s.toList, IsPrintable c) :
      IsLiteral ('"' :: (s.toList ++ ['"'])) (.string s)
  | integer {n : Nat} (h : n < Number.signedBound) :
      IsLiteral (Decimal.digitsOf n) (.number (.integer n))
  | bool (b : Bool) : IsLiteral (if b then "true" else "false").toList (.bool b)
  | list {items : List (List Char × Expression)} (h : ∀ item ∈ items, IsLiteral item.1 item.2) :
      IsLiteral ('[' :: ([',', ' '].intercalate (items.map (·.1)) ++ [']']))
        (.array (items.map (·.2)))

/-! ### Literals that are no lists -/

theorem isPlain_bool (b : Bool) : (bool b).IsPlain := by
  cases b with
  | false => exact @IsPlain.reference "false" [] (by decide) (by simp)
  | true => exact @IsPlain.reference "true" [] (by decide) (by simp)

theorem toList_text_integer (n : Nat) :
    (number (.integer n)).text.toList = Decimal.digitsOf n := by
  have htext : (number (.integer n)).text.toList = Decimal.integerText n := toList_text _
  rw [htext, Decimal.integerText, if_neg (by omega), Int.natAbs_natCast]

theorem isPlain_integer {n : Nat} (h : n < Number.signedBound) :
    (number (.integer n)).IsPlain := by
  have hunsigned : Number.signedBound < Number.unsignedBound := by decide
  exact .integer (by omega) (by omega)

theorem toList_text_string {s : String} (h : ∀ c ∈ s.toList, IsPrintable c) :
    (string s).text.toList = '"' :: (s.toList ++ ['"']) := by
  rw [text_string_eq, escapeText_of_isPrintable h]

theorem toList_text_bool (b : Bool) :
    (bool b).text.toList = (if b then "true" else "false").toList :=
  toList_text (bool b)

/-! ### Reading -/

theorem intercalate_listedText (item : List Char × Expression)
    (items : List (List Char × Expression)) :
    [',', ' '].intercalate ((item :: items).map (·.1)) = item.1 ++ items.flatMap listedText := by
  induction items generalizing item with
  | nil => simp
  | cons next items ih =>
      rw [List.map_cons, List.map_cons, List.intercalate_cons_cons, ← List.map_cons, ih,
        List.flatMap_cons, List.append_assoc]
      rfl

/-- The list without elements. -/
theorem readsAsValue_nil : ReadsAsValue ['[', ']'] (.array []) := by
  refine ⟨startsValue_of_ne (by decide) (by decide) (by decide),
    fun fuel lines after hfuel hafter => ?_⟩
  rw [List.length_cons, List.length_cons, List.length_nil] at hfuel
  obtain ⟨fuel, rfl⟩ : ∃ n, fuel = n + 4 := ⟨fuel - 4, by omega⟩
  have hterm : readTerm (fuel + 2) ('[' :: ']' :: after) = some (.array [], after) := by
    rw [readTerm, skipBlanks_of_isSolid (by decide), startsFor_of_ne (by decide)]
    simp [readElements]
  exact readExpression_of_readTerm (fun fuel => readUnary_of_isSolid (by decide) (by decide) fuel _)
    hterm hafter.toEndsExpression

/-- A literal is read from its text. -/
theorem IsLiteral.readsAsValue {text : List Char} {e : Expression} (h : IsLiteral text e) :
    ReadsAsValue text e := by
  induction h with
  | @string s h =>
      rw [← toList_text_string h]
      exact (IsPlain.string s).readsAsValue
  | @integer n h =>
      rw [← toList_text_integer n]
      exact (isPlain_integer h).readsAsValue
  | bool b =>
      rw [← toList_text_bool b]
      exact (isPlain_bool b).readsAsValue
  | @list items _ ih =>
      cases items with
      | nil => exact readsAsValue_nil
      | cons item items =>
          rw [intercalate_listedText, List.append_assoc]
          exact readsAsValue_list ih

/-! ### Writing -/

mutual

/-- Whether a value is an empty list, or a list whose last element ends in one. -/
def endsEmpty : Expression → Bool
  | .array elements => lastEndsEmpty true elements
  | _ => false

/-- Whether the last of some elements ends in an empty list.  Without elements it is given. -/
def lastEndsEmpty (without : Bool) : List Expression → Bool
  | [] => without
  | e :: es => lastEndsEmpty (endsEmpty e) es

end

mutual

/-- Whether no list in a value goes on behind an element that ends in an empty list. -/
def keepsCommas : Expression → Bool
  | .array elements => elementsKeepCommas elements
  | _ => true

/-- Whether commas are kept in elements and between them. -/
def elementsKeepCommas : List Expression → Bool
  | [] => true
  | e :: es => keepsCommas e && (es.isEmpty || !endsEmpty e) && elementsKeepCommas es

end

/-- The flag behind elements. -/
theorem first_writeElements {es : List Expression}
    (h : ∀ e ∈ es, (writeExpression false e).first = e.endsEmpty) (first : Bool) :
    (writeElements first es).first = lastEndsEmpty first es := by
  induction es generalizing first with
  | nil => rfl
  | cons e es ih =>
      obtain ⟨he, hes⟩ := List.forall_mem_cons.1 h
      rw [writeElements_cons, he, lastEndsEmpty]
      exact ih hes _

/-- The flag is set behind a literal exactly if it ends in an empty list. -/
theorem IsLiteral.first_writeExpression {text : List Char} {e : Expression}
    (h : IsLiteral text e) : (writeExpression false e).first = e.endsEmpty := by
  induction h with
  | string _ => rfl
  | integer _ => rfl
  | bool _ => rfl
  | @list items _ ih =>
      exact first_writeElements (List.forall_mem_map.2 ih) true

theorem IsLiteral.text_writeExpression {text : List Char} {e : Expression}
    (h : IsLiteral text e) (first : Bool) : (writeExpression first e).text = e.text.toList := by
  rw [toList_text]
  cases h <;> rfl

/-- A text is written for another one, and is shorter unless a condition holds. -/
structure ShortensUnless (keeps : Bool) (written text : List Char) : Prop where
  length_le : written.length ≤ text.length
  eq_iff : written = text ↔ keeps = true

section Shortened

variable {keeps keeps' : Bool} {written written' text text' : List Char}

theorem ShortensUnless.refl (text : List Char) : ShortensUnless true text text :=
  ⟨le_rfl, by simp⟩

theorem ShortensUnless.of_length_lt (h : written.length < text.length) :
    ShortensUnless false written text :=
  ⟨h.le, iff_of_false (fun heq => absurd (congrArg List.length heq) h.ne) Bool.false_ne_true⟩

theorem ShortensUnless.append (h : ShortensUnless keeps written text)
    (h' : ShortensUnless keeps' written' text') :
    ShortensUnless (keeps && keeps') (written ++ written') (text ++ text') := by
  have hle := h.length_le
  have hle' := h'.length_le
  refine ⟨by simp only [List.length_append]; omega, ?_⟩
  rw [Bool.and_eq_true, ← h.eq_iff, ← h'.eq_iff]
  refine ⟨fun heq => List.append_inj heq ?_, fun heq => by rw [heq.1, heq.2]⟩
  have hlength := congrArg List.length heq
  rw [List.length_append, List.length_append] at hlength
  omega

end Shortened

section Elements

variable {items : List (List Char × Expression)}
  (h : ∀ item ∈ items, IsLiteral item.1 item.2)
  (hwritten : ∀ item ∈ items, ShortensUnless item.2.keepsCommas item.2.text.toList item.1)

include h hwritten

/-- Elements that each stand behind a comma are written with all commas if the flag is clear and
none of the elements sets it for the next one. -/
theorem shortensUnless_listedText (first : Bool) :
    ShortensUnless ((items.isEmpty || !first) && elementsKeepCommas (items.map (·.2)))
      (writeElements first (items.map (·.2))).text (items.flatMap listedText) := by
  induction items generalizing first with
  | nil => exact .refl []
  | cons item items ih =>
      obtain ⟨hitem, hitems⟩ := List.forall_mem_cons.1 h
      obtain ⟨htext, htexts⟩ := List.forall_mem_cons.1 hwritten
      -- The flag decides on the comma in front of this element, and what this element ends in
      -- decides on the next one.
      have hcomma : ShortensUnless (!first) (if first then [] else [',', ' ']) [',', ' '] := by
        cases first with
        | false => exact .refl _
        | true => exact .of_length_lt (by decide)
      have hall := (hcomma.append htext).append (ih hitems htexts item.2.endsEmpty)
      rw [List.map_cons, writeElements_cons, hitem.first_writeExpression,
        hitem.text_writeExpression]
      simpa [elementsKeepCommas, listedText, Bool.and_assoc] using hall

/-- The first element stands behind no comma. -/
theorem shortensUnless_elements :
    ShortensUnless (elementsKeepCommas (items.map (·.2)))
      (writeElements true (items.map (·.2))).text
      ([',', ' '].intercalate (items.map (·.1))) := by
  cases items with
  | nil => exact .refl []
  | cons item items =>
      obtain ⟨hitem, hitems⟩ := List.forall_mem_cons.1 h
      obtain ⟨htext, htexts⟩ := List.forall_mem_cons.1 hwritten
      have hall := htext.append (shortensUnless_listedText hitems htexts item.2.endsEmpty)
      rw [intercalate_listedText, List.map_cons, writeElements_cons, hitem.first_writeExpression,
        hitem.text_writeExpression]
      simpa [elementsKeepCommas, Bool.and_assoc] using hall

end Elements

/-- What is written for a literal is its text, or it is shorter. -/
theorem IsLiteral.shortensUnless {text : List Char} {e : Expression} (h : IsLiteral text e) :
    ShortensUnless e.keepsCommas e.text.toList text := by
  induction h with
  | @string s h =>
      rw [toList_text_string h]
      exact .refl _
  | @integer n h =>
      rw [toList_text_integer n]
      exact .refl _
  | bool b =>
      rw [toList_text_bool b]
      exact .refl _
  | @list items h ih =>
      have hall := ((ShortensUnless.refl ['[']).append (shortensUnless_elements h ih)).append
        (.refl [']'])
      have htext : (array (items.map (·.2))).text.toList =
          '[' :: ((writeElements true (items.map (·.2))).text ++ [']']) := toList_text _
      rw [htext]
      simpa [keepsCommas] using hall

example : (array [array [], number (.integer 1)]).text = "[[]1]" := by decide

/-- A literal stands for one expression only. -/
theorem IsLiteral.unique {text : List Char} {e e' : Expression} (h : IsLiteral text e)
    (h' : IsLiteral text e') : e = e' := by
  have hread := h.readsAsValue.reads _ false _ le_rfl (endsValue_newline [])
  have hread' := h'.readsAsValue.reads _ false _ le_rfl (endsValue_newline [])
  exact (Prod.mk.inj (Option.some.inj (hread.symm.trans hread'))).1

theorem IsLiteral.text_eq_iff {text : String} {e : Expression} (h : IsLiteral text.toList e) :
    e.text = text ↔ e.keepsCommas = true := by
  rw [← String.toList_inj]
  exact h.shortensUnless.eq_iff

end Expression

/-- A text is a literal for which the same text is written. -/
def KeepsCommas (text : String) : Prop :=
  ∃ e, Expression.IsLiteral text.toList e ∧ e.keepsCommas = true

theorem keepsCommas_iff {text : String} {e : Expression} (h : Expression.IsLiteral text.toList e) :
    KeepsCommas text ↔ e.text = text := by
  rw [h.text_eq_iff]
  refine ⟨?_, fun hkeeps => ⟨e, h, hkeeps⟩⟩
  rintro ⟨e', h', hkeeps⟩
  rwa [h.unique h']

end InfraGraph.Hcl
