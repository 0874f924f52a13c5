import InfraGraph.Proofs.Decimal.Bits
import InfraGraph.Proofs.Json.Number
import InfraGraph.Proofs.Json.RoundTrip

/-!
# Floats are written as numbers

The text of a finite float is a JSON number: in each notation at least one digit stands wherever
digits have to be, and no zero leads the others, as the digits of a decimal don't start with one.
-/

namespace InfraGraph

namespace Decimal

open Json (NumberParts fractionText exponentText)

/-- The parts of the text of an integer, as those of an exponent. -/
def exponentParts (n : Int) : Bool × List Char :=
  (decide (n < 0), digitsOf n.natAbs)

/-- The parts of the text of a decimal. -/
def Scientific.parts (negative : Bool) (s : Scientific) : NumberParts :=
  let digits := digitsOf s.digits
  let places : Int := digits.length + s.exponent
  if s.digits = 0 then ⟨negative, ['0'], some ['0'], none⟩
  else if 0 ≤ s.exponent ∧ places ≤ 16 then
    ⟨negative, digits ++ List.replicate s.exponent.toNat '0', some ['0'], none⟩
  else if 0 < places ∧ places ≤ 16 then
    ⟨negative, digits.take places.toNat, some (digits.drop places.toNat), none⟩
  else if -5 < places ∧ places ≤ 0 then
    ⟨negative, ['0'], some (List.replicate (-places).toNat '0' ++ digits), none⟩
  else if digits.length = 1 then ⟨negative, digits, none, some (exponentParts (places - 1))⟩
  else ⟨negative, digits.take 1, some (digits.drop 1), some (exponentParts (places - 1))⟩

theorem exponentText_exponentParts (n : Int) :
    exponentText (some (exponentParts n)) = 'e' :: integerText n := by
  by_cases h : n < 0 <;> simp [exponentText, exponentParts, integerText, h]

theorem Scientific.negative_parts (negative : Bool) (s : Scientific) :
    (s.parts negative).negative = negative := by
  unfold parts
  dsimp only
  split_ifs <;> rfl

theorem Scientific.text_parts (negative : Bool) (s : Scientific) :
    (s.parts negative).text = if negative then '-' :: s.text else s.text := by
  have hsign : ∀ p : NumberParts, p.negative = negative →
      p.whole ++ (fractionText p.fraction ++ exponentText p.exponent) = s.text →
        p.text = if negative then '-' :: s.text else s.text := by
    rintro p rfl htext
    rw [NumberParts.text, htext]
    cases p.negative <;> rfl
  refine hsign _ ?_ ?_
  · unfold parts
    dsimp only
    split_ifs <;> rfl
  · unfold parts text
    dsimp only
    split_ifs <;> simp [fractionText, exponentText_exponentParts] <;> rfl

theorem isDigit_of_mem_replicate {n : Nat} {c : Char} (h : c ∈ List.replicate n '0') :
    c.isDigit = true := by
  rw [List.eq_of_mem_replicate h]
  decide

/-- The exponent of a number has digits. -/
theorem exponentParts_isDigit {n : Int} (negative : Bool) (digits : List Char)
    (h : some (exponentParts n) = some (negative, digits)) :
    digits ≠ [] ∧ ∀ c ∈ digits, c.isDigit = true := by
  obtain ⟨_, rfl⟩ := Prod.mk.inj (Option.some.inj h)
  exact ⟨digitsOf_ne_nil _, fun _ => isDigit_of_mem_digitsOf⟩

theorem Scientific.isWellFormed_parts (negative : Bool) (s : Scientific) :
    (s.parts negative).IsWellFormed := by
  have hzero : ∀ c ∈ ['0'], c.isDigit = true := List.forall_mem_singleton.2 rfl
  have hdigit : ∀ c ∈ digitsOf s.digits, c.isDigit = true := fun _ => isDigit_of_mem_digitsOf
  have hhead : s.digits ≠ 0 → (digitsOf s.digits).head? ≠ some '0' := Json.head?_toDigits_ne
  obtain ⟨first, others, hcons⟩ := List.exists_cons_of_ne_nil (digitsOf_ne_nil s.digits)
  simp only [parts, hcons] at hdigit hhead ⊢
  split_ifs with hnone hinteger hpoint hsmall hone
  · exact ⟨by simp, hzero, by simp, by simp, by simp⟩
  · refine ⟨by simp, fun c hc => ?_, fun hlead => absurd hlead (hhead hnone), by simp, by simp⟩
    exact (List.mem_append.1 hc).elim (hdigit c) isDigit_of_mem_replicate
  · -- The point stands behind the first digit at least, and in front of the last one.
    obtain ⟨k, hk⟩ : ∃ k, (((first :: others).length : Int) + s.exponent).toNat = k + 1 :=
      ⟨_, (Nat.succ_pred_eq_of_pos (by omega)).symm⟩
    have hshort : k + 1 < (first :: others).length := by omega
    rw [hk]
    refine ⟨List.cons_ne_nil _ _, fun c hc => hdigit c (List.mem_of_mem_take hc), fun hlead => ?_,
      ?_, by simp⟩
    · exact absurd hlead (hhead hnone)
    · rintro _ ⟨⟩
      exact ⟨by simpa [List.drop_eq_nil_iff] using hshort,
        fun c hc => hdigit c (List.mem_of_mem_drop hc)⟩
  · refine ⟨by simp, hzero, by simp, ?_, by simp⟩
    rintro _ ⟨⟩
    refine ⟨by simp, fun c hc => ?_⟩
    exact (List.mem_append.1 hc).elim isDigit_of_mem_replicate (hdigit c)
  · exact ⟨by simp, hdigit, fun _ => hone, by simp, exponentParts_isDigit⟩
  · refine ⟨by simp, fun c hc => hdigit c (List.mem_of_mem_take hc), by simp, ?_,
      exponentParts_isDigit⟩
    rintro _ ⟨⟩
    refine ⟨?_, fun c hc => hdigit c (List.mem_of_mem_drop hc)⟩
    rw [List.drop_one, List.tail_cons]
    rintro rfl
    exact hone rfl

end Decimal

namespace Json

theorem NumberParts.isNumeral_text {p : NumberParts} (h : p.IsWellFormed) : IsNumeral p.text := by
  refine ⟨?_, fun after hafter => ⟨p, readNumber_text h hafter⟩⟩
  obtain ⟨c, rest, hcons⟩ := List.exists_cons_of_ne_nil h.whole_ne_nil
  rw [text, hcons]
  cases p.negative with
  | true => exact ⟨'-', _, rfl, .inl rfl⟩
  | false => exact ⟨c, _, rfl, .inr (h.isDigit_whole c (by simp [hcons]))⟩

/-- Whatever stands for a float is read back as it was written. -/
theorem readable_ofFloat (x : Float) : (ofFloat x).Readable := by
  unfold ofFloat
  split
  · rw [Decimal.floatText, String.toList_ofList, ← Decimal.Scientific.text_parts]
    exact .number (NumberParts.isNumeral_text (Decimal.Scientific.isWellFormed_parts _ _))
  · exact .null

/-! ### Reading them -/

theorem digitsValue_digitsOf (n : ℕ) : digitsValue (Decimal.digitsOf n) = n :=
  Nat.ofDigitChars_ten_toDigits

/-- Zeros in front of the digits make no difference. -/
theorem digitsValue_replicate_append (k : ℕ) (digits : List Char) :
    digitsValue (List.replicate k '0' ++ digits) = digitsValue digits := by
  induction k with
  | zero => rfl
  | succ k ih =>
      rw [List.replicate_succ, List.cons_append, ← ih]
      rfl

theorem exists_magnitude?_positional (negative : Bool) {whole fraction : List Char}
    (h : digitsValue (whole ++ fraction) ≤ maxWord) (hfraction : fraction ≠ []) :
    ∃ b, NumberParts.magnitude? ⟨negative, whole, some fraction, none⟩ = some b := by
  rw [NumberParts.magnitude?_eq h]
  have hlength := List.length_pos_of_ne_nil hfraction
  exact exists_floatOfParts_of_neg h (by simpa using hlength)

section Scientific

variable {s : Decimal.Scientific}

theorem withZeros_le_of_value_le {k : ℕ} (hk : s.exponent = k)
    (hvalue : s.value ≤ Decimal.largestDecimal) :
    Decimal.withZeros s.digits k ≤ Decimal.largestDecimal := by
  have hsame : s.value = Decimal.withZeros s.digits k := by
    rw [← Decimal.Scientific.value_natCast, ← hk]
  rw [hsame] at hvalue
  exact_mod_cast hvalue

theorem exponent_le_of_value_le (hpos : 0 < s.digits)
    (hvalue : s.value ≤ Decimal.largestDecimal) : s.exponent ≤ 308 := by
  rcases lt_or_ge s.exponent 0 with hneg | hnonneg
  · exact hneg.le.trans (by decide)
  · obtain ⟨k, hk⟩ := Int.eq_ofNat_of_zero_le hnonneg
    have hle := le_of_withZeros_le hpos (withZeros_le_of_value_le hk hvalue)
    omega

theorem exists_floatOfParts (hpos : 0 < s.digits) (hdigits : s.digits ≤ 10 ^ 17)
    (hvalue : s.value ≤ Decimal.largestDecimal) :
    ∃ b, floatOfParts s.digits s.exponent = some b := by
  rcases lt_or_ge s.exponent 0 with hneg | hnonneg
  · exact exists_floatOfParts_of_neg (hdigits.trans (by decide)) hneg
  · obtain ⟨k, hk⟩ := Int.eq_ofNat_of_zero_le hnonneg
    rw [hk]
    exact exists_floatOfParts_of_le hpos hdigits (withZeros_le_of_value_le hk hvalue)

theorem exists_magnitude?_scientific (negative : Bool) {whole : List Char}
    {fraction : Option (List Char)} {places : ℤ} (hpos : 0 < s.digits)
    (hdigits : s.digits ≤ 10 ^ 17) (hvalue : s.value ≤ Decimal.largestDecimal)
    (hsame : digitsValue (whole ++ fraction.getD []) = s.digits)
    (hplaces : places = s.exponent + (fraction.getD []).length)
    (hlength : (fraction.getD []).length ≤ 18) :
    ∃ b, NumberParts.magnitude? ⟨negative, whole, fraction, some (Decimal.exponentParts places)⟩ =
      some b := by
  have hword : (10 : ℕ) ^ 17 ≤ maxWord := by decide
  have hexponent := exponent_le_of_value_le hpos hvalue
  rw [NumberParts.magnitude?_eq (hsame.trans_le (hdigits.trans hword))]
  simp only [Decimal.exponentParts, digitsValue_digitsOf, hsame]
  split
  · -- Only exponents below zero are so large.
    rename_i hlarge
    have hneg : places < 0 := by
      rw [maxExponent] at hlarge
      omega
    exact ⟨Decimal.Binary.zero, by simp [hneg]⟩
  · have hsum : (if decide (places < 0) then -((fraction.getD []).length : ℤ) - places.natAbs
        else -((fraction.getD []).length : ℤ) + places.natAbs) = s.exponent := by
      split <;> rename_i hsign <;> simp only [decide_eq_true_eq] at hsign <;> omega
    rw [hsum]
    exact exists_floatOfParts hpos hdigits hvalue

end Scientific

/-- A decimal that isn't above the largest number is read as a float. -/
theorem exists_magnitude?_parts (negative : Bool) {s : Decimal.Scientific}
    (hdigits : s.digits ≤ 10 ^ 17) (hvalue : s.value ≤ Decimal.largestDecimal) :
    ∃ b, (s.parts negative).magnitude? = some b := by
  have hword : (10 : ℕ) ^ 17 ≤ maxWord := by decide
  have hsame : digitsValue (Decimal.digitsOf s.digits) = s.digits := digitsValue_digitsOf s.digits
  have hlength : (Decimal.digitsOf s.digits).length ≤ 18 :=
    (Nat.length_toDigits_le_iff (by decide) (by decide)).2
      (hdigits.trans_lt (Nat.pow_lt_pow_right (by decide) (by decide)))
  have hdigit : ∀ c ∈ Decimal.digitsOf s.digits, c.isDigit = true :=
    fun _ => Decimal.isDigit_of_mem_digitsOf
  unfold Decimal.Scientific.parts
  dsimp only
  split_ifs with hnone hinteger hpoint hsmall hone
  · exact exists_magnitude?_positional negative (by decide) (by decide)
  · refine exists_magnitude?_positional negative (le_of_lt ?_) (by decide)
    refine (digitsValue_lt fun c hc => ?_).trans_le (le_trans ?_ hword)
    · rcases List.mem_append.1 hc with hc | hc
      · exact (List.mem_append.1 hc).elim (hdigit c) Decimal.isDigit_of_mem_replicate
      · exact Decimal.isDigit_of_mem_replicate (n := 1) hc
    · refine Nat.pow_le_pow_right (by decide) ?_
      simp
      omega
  · refine exists_magnitude?_positional negative ?_ ?_
    · rw [List.take_append_drop, hsame]
      exact hdigits.trans hword
    · rw [ne_eq, List.drop_eq_nil_iff]
      omega
  · refine exists_magnitude?_positional negative ?_ (by simp [Decimal.digitsOf_ne_nil])
    rw [← List.append_assoc, ← List.replicate_one, ← List.replicate_add,
      digitsValue_replicate_append, hsame]
    exact hdigits.trans hword
  · refine exists_magnitude?_scientific negative (Nat.pos_of_ne_zero hnone) hdigits hvalue ?_ ?_ ?_
    · rw [Option.getD_none, List.append_nil, hsame]
    · simp [hone]
    · simp
  · refine exists_magnitude?_scientific negative (Nat.pos_of_ne_zero hnone) hdigits hvalue ?_ ?_ ?_
    · rw [Option.getD_some, List.take_append_drop, hsame]
    · have hpos := List.length_pos_of_ne_nil (Decimal.digitsOf_ne_nil s.digits)
      simp
      omega
    · simp
      omega

/-- The text of a finite float is read from its parts. -/
theorem float?_ofFloat {x : Float} (h : Decimal.isFinite x = true) :
    float? (ofFloat x) =
      ((Decimal.shortest (Decimal.magnitude x)).parts (Decimal.isNegative x)).float? := by
  have hread := readNumber_text (Decimal.Scientific.isWellFormed_parts (Decimal.isNegative x)
    (Decimal.shortest (Decimal.magnitude x))) endsValue_nil
  rw [List.append_nil, Decimal.Scientific.text_parts] at hread
  rw [ofFloat, if_pos h, float?, Decimal.floatText, String.toList_ofList, hread, Option.bind_some]

/-- Exactly the finite floats are read from what they are written as. -/
theorem exists_float?_ofFloat_iff {x : Float} :
    (∃ y, float? (ofFloat x) = some y) ↔ Decimal.isFinite x = true := by
  by_cases hfinite : Decimal.isFinite x = true
  · refine iff_of_true ?_ hfinite
    obtain ⟨hdigits, hvalue⟩ := (Decimal.isCanonical_magnitude hfinite).toFits.shortest_spec
    obtain ⟨b, hb⟩ := exists_magnitude?_parts (Decimal.isNegative x) hdigits hvalue
    rw [float?_ofFloat hfinite]
    exact ⟨_, congrArg (Option.map _) hb⟩
  · rw [ofFloat, if_neg hfinite]
    exact iff_of_false (fun ⟨y, hy⟩ => by cases hy) hfinite

end Json

end InfraGraph
