import InfraGraph.Json.Number
import InfraGraph.Proofs.Decimal.Shortest

/-!
# Numbers that are read as floats

A significand of 64 bits is multiplied with a power of ten, or divided by several of them, and each
of the results is rounded.  No number up to the largest one of double precision becomes too large on
the way.
-/

namespace InfraGraph.Json

open Decimal (Binary withZeros largestDecimal)

theorem lt_power {j k : ℕ} (h : 17 + j ≤ k) : withZeros 17976931348623157 j < 10 ^ k := by
  calc 17976931348623157 * 10 ^ j < 10 ^ 17 * 10 ^ j :=
        Nat.mul_lt_mul_of_pos_right (by decide) (by positivity)
    _ = 10 ^ (17 + j) := (pow_add 10 17 j).symm
    _ ≤ 10 ^ k := Nat.pow_le_pow_right (by decide) h

/-- No power of ten behind the largest one that is used is small enough. -/
theorem le_of_withZeros_le {digits k : ℕ} (hpos : 0 < digits)
    (h : withZeros digits k ≤ largestDecimal) : k ≤ 308 := by
  by_contra hk
  have hlarge : 17 + 292 ≤ k := by omega
  have hpow : largestDecimal < 10 ^ k := lt_power hlarge
  exact absurd h (not_le.2 (hpow.trans_le (Nat.le_mul_of_pos_left _ hpos)))

/-- Up to seventeen digits, and no more than those of the largest number before the power. -/
def mostDigits (k : ℕ) : ℕ :=
  min (largestDecimal / 10 ^ k) (10 ^ 17)

/-- The product of a number and a power of ten, both rounded first. -/
def timesPower? (digits k : ℕ) : Option Binary :=
  (Binary.ofNat? digits).bind fun b => (Binary.ofNat? (Nat.pow 10 k)).bind fun p => b.mul? p

theorem isSome_timesPower?_mostDigits :
    ((List.range 18).all fun k => (timesPower? (mostDigits (291 + k)) (291 + k)).isSome) = true := by
  decide +kernel

theorem exists_timesPower? {k : ℕ} (hlow : 291 ≤ k) (hk : k ≤ 308) :
    ∃ b p c, Binary.ofNat? (mostDigits k) = some b ∧ Binary.ofNat? (Nat.pow 10 k) = some p ∧
      b.mul? p = some c := by
  obtain ⟨i, rfl⟩ := Nat.exists_eq_add_of_le hlow
  have hsome := List.all_eq_true.1 isSome_timesPower?_mostDigits i (List.mem_range.2 (by omega))
  obtain ⟨c, hc⟩ := Option.isSome_iff_exists.1 hsome
  rw [timesPower?, Option.bind_eq_some_iff] at hc
  obtain ⟨b, hb, hc⟩ := hc
  obtain ⟨p, hp, hc⟩ := Option.bind_eq_some_iff.1 hc
  exact ⟨b, p, c, hb, hp, hc⟩

theorem withZeros_mul_ten (digits k : ℕ) :
    withZeros (digits * 10) k = withZeros digits (k + 1) := by
  rw [withZeros, withZeros, Nat.pow_succ', Nat.mul_assoc]

/-- Up to seventeen digits aren't too many for the powers below. -/
theorem le_mostDigits {digits k : ℕ} (h : digits ≤ 10 ^ 17)
    (hle : withZeros digits k ≤ largestDecimal) : digits ≤ mostDigits (max k 291) := by
  refine le_min ((Nat.le_div_iff_mul_le (by positivity)).2 ?_) h
  rcases max_cases k 291 with ⟨hmax, _⟩ | ⟨hmax, _⟩ <;> rw [hmax]
  · exact hle
  · have hmost : withZeros (10 ^ 17) 291 ≤ largestDecimal := by
      rw [Nat.pow_succ 10 16, withZeros_mul_ten]
      exact Decimal.withZeros_le_withZeros (by decide) (by decide)
    exact (Nat.mul_le_mul_right _ h).trans hmost

/-- The powers of ten that numbers are scaled by can be rounded. -/
theorem exists_bind_power {k : ℕ} (hk : k ≤ 308) {f : Binary → Option Binary}
    (h : ∀ p : Binary, 1 ≤ p.value → ∃ c, f p = some c) :
    ∃ c, (Binary.ofNat? (Nat.pow 10 k)).bind f = some c := by
  obtain ⟨_, p', _, _, hp', _⟩ := exists_timesPower? (le_max_right k 291) (by omega)
  obtain ⟨p, hp, _⟩ :=
    Binary.exists_ofNat?_of_le (Nat.pow_le_pow_right (by decide) (le_max_left k 291)) hp'
  have hone : Binary.ofNat? 1 = some ⟨Binary.leadingBit, -52⟩ := by decide
  obtain ⟨one, hsame, hle⟩ := Binary.exists_ofNat?_of_le (Nat.one_le_pow k 10 (by decide)) hp
  obtain rfl := Option.some.inj (hone.symm.trans hsame)
  rw [Nat.pow_eq, hp, Option.bind_some]
  refine h p (le_trans ?_ hle)
  norm_num [Binary.value, Binary.leadingBit]

/-- The number `2 ^ 64`. -/
def afterWords : Binary :=
  ⟨Binary.leadingBit, 12⟩

theorem exists_scale_of_neg {largest : Binary} (hlargest : 1 ≤ largest.value) (fuel : ℕ)
    {b : Binary} (hb : b.value ≤ afterWords.value) {exponent : ℤ} (hexponent : exponent < 0) :
    ∃ c, scale largest fuel b exponent = some c := by
  have hword : Binary.ofRatio? afterWords.numerator afterWords.denominator = some afterWords := by
    decide
  induction fuel generalizing b exponent with
  | zero => exact ⟨b, rfl⟩
  | succ fuel ih =>
      rw [scale]
      split
      · rename_i hsmall
        simp only [if_neg (not_le.2 hexponent)]
        refine exists_bind_power hsmall fun p hone => ?_
        obtain ⟨c, hc, _⟩ := Binary.exists_div?_of_le hb hone hword
        exact ⟨c, hc⟩
      · split
        · exact ⟨b, rfl⟩
        · rw [if_neg (not_le.2 hexponent)]
          obtain ⟨c, hc, hle⟩ := Binary.exists_div?_of_le hb hlargest hword
          rw [hc, Option.bind_some]
          exact ih hle (by omega)

/-- Negative powers of ten make no number too large. -/
theorem exists_floatOfParts_of_neg {significand : ℕ} (h : significand ≤ maxWord) {exponent : ℤ}
    (hexponent : exponent < 0) : ∃ b, floatOfParts significand exponent = some b := by
  have hword : Binary.ofNat? (maxWord + 1) = some afterWords := by decide
  obtain ⟨b, hb, hle⟩ := Binary.exists_ofNat?_of_le (Nat.le_succ_of_le h) hword
  rw [floatOfParts, hb, Option.bind_some]
  apply exists_bind_power
  · exact le_rfl
  · exact fun p hone => exists_scale_of_neg hone 8 hle hexponent

/-- Positive powers of ten make no number too large that isn't above the largest one. -/
theorem exists_floatOfParts_of_le {significand k : ℕ} (hpos : 0 < significand)
    (h : significand ≤ 10 ^ 17) (hle : withZeros significand k ≤ largestDecimal) :
    ∃ b, floatOfParts significand (k : ℤ) = some b := by
  have hk := le_of_withZeros_le hpos hle
  -- Larger factors are a largest significand and a power that both come out.
  obtain ⟨b', p', c', hb', hp', hc'⟩ := exists_timesPower? (le_max_right k 291) (by omega)
  obtain ⟨b, hb, hvalue⟩ := Binary.exists_ofNat?_of_le (le_mostDigits h hle) hb'
  obtain ⟨p, hp, hpower⟩ :=
    Binary.exists_ofNat?_of_le (Nat.pow_le_pow_right (by decide) (le_max_left k 291)) hp'
  obtain ⟨c, hc, _⟩ := Binary.exists_mul?_of_le hvalue hpower hc'
  rw [floatOfParts, hb, Option.bind_some]
  apply exists_bind_power
  · exact le_rfl
  · refine fun power _ => ⟨c, ?_⟩
    rw [scale, Int.natAbs_natCast, if_pos hk, Nat.pow_eq, hp, Option.bind_some,
      if_pos (Int.natCast_nonneg k), hc]

/-! ### Digits -/

theorem digitsValue_append (a b : List Char) :
    digitsValue (a ++ b) =
      b.foldl (fun n c => 10 * n + (c.toNat - 48)) (digitsValue a) := by
  rw [digitsValue, List.foldl_append, digitsValue]

theorem le_foldl_digits (n : ℕ) (digits : List Char) :
    n ≤ digits.foldl (fun n c => 10 * n + (c.toNat - 48)) n := by
  induction digits generalizing n with
  | nil => exact le_rfl
  | cons c rest ih => exact le_trans (by omega) (ih (10 * n + (c.toNat - 48)))

/-- Digits are appended one by one, as long as the number fits in 64 bits. -/
theorem appendDigits_eq {significand : ℕ} (taken : ℕ) {digits : List Char}
    (h : digits.foldl (fun n c => 10 * n + (c.toNat - 48)) significand ≤ maxWord) :
    appendDigits significand taken digits =
      (digits.foldl (fun n c => 10 * n + (c.toNat - 48)) significand, taken + digits.length) := by
  induction digits generalizing significand taken with
  | nil => rfl
  | cons c rest ih =>
      rw [appendDigits, if_pos ((le_foldl_digits _ rest).trans h), ih (taken + 1) h, List.foldl_cons,
        List.length_cons, Nat.add_right_comm, Nat.add_assoc]

theorem digitsValue_lt {digits : List Char} (h : ∀ c ∈ digits, c.isDigit = true) :
    digitsValue digits < 10 ^ digits.length := by
  induction digits using List.reverseRecOn with
  | nil => exact one_pos
  | append_singleton front c ih =>
      have hfront := ih fun c hc => h c (List.mem_append_left _ hc)
      have hc : c.toNat - 48 < 10 := by
        have hdigit := h c (by simp)
        simp only [Char.isDigit, Bool.and_eq_true, decide_eq_true_eq, UInt32.le_iff_toNat_le]
          at hdigit
        have hhigh : c.toNat ≤ 57 := by simpa using hdigit.2
        omega
      rw [digitsValue_append, List.length_append, List.length_singleton, pow_succ]
      simp only [List.foldl_cons, List.foldl_nil]
      omega

/-- The magnitude of a number is read from the digits before and after the point together. -/
theorem NumberParts.magnitude?_eq {p : NumberParts}
    (h : digitsValue (p.whole ++ p.fraction.getD []) ≤ maxWord) :
    p.magnitude? =
      let significand := digitsValue (p.whole ++ p.fraction.getD [])
      let start : ℤ := -(p.fraction.getD []).length
      match p.exponent with
      | none => floatOfParts significand start
      | some (negative, digits) =>
        if maxExponent < digitsValue digits then
          if significand ≠ 0 ∧ !negative then none else some Binary.zero
        else floatOfParts significand
          (if negative then start - digitsValue digits else start + digitsValue digits) := by
  rw [digitsValue_append] at h ⊢
  have hwhole := (le_foldl_digits _ (p.fraction.getD [])).trans h
  rw [magnitude?, appendDigits_eq 0 hwhole]
  dsimp only
  rw [← digitsValue, appendDigits_eq 0 h]
  have hstart : ((p.whole.length - (0 + p.whole.length) : ℕ) : ℤ) -
      ((0 + (p.fraction.getD []).length : ℕ) : ℤ) = -(p.fraction.getD []).length := by
    omega
  cases p.exponent <;> simp only [hstart]

end InfraGraph.Json
