import InfraGraph.Decimal.Nearest
import Mathlib.Algebra.Order.Field.Power
import Mathlib.Data.Rat.Cast.Order
import Mathlib.Tactic.FieldSimp
import Mathlib.Tactic.Linarith
import Mathlib.Tactic.Positivity
import Mathlib.Tactic.Ring

/-!
# Rounding is monotone

The nearest number of double precision doesn't become smaller if the quotient becomes larger, and
where a quotient isn't too large for the format, no smaller one is.  So bounds on products and
quotients can be read off a few of them.
-/

namespace InfraGraph.Decimal

/-- A power as a quotient of powers with natural exponents. -/
theorem zpow_eq_div {q : ℚ} (hq : q ≠ 0) (e : ℤ) : q ^ e = q ^ e.toNat / q ^ (-e).toNat := by
  rw [← zpow_natCast, ← zpow_natCast, ← zpow_sub₀ hq, Int.toNat_sub_toNat_neg]

namespace Binary

/-- The number as a rational one. -/
def value (b : Binary) : ℚ :=
  b.significand * 2 ^ b.exponent

theorem denominator_pos (b : Binary) : 0 < b.denominator := by
  rw [denominator, Nat.one_shiftLeft]
  exact Nat.two_pow_pos _

theorem value_eq (b : Binary) : b.value = b.numerator / b.denominator := by
  rw [value, numerator, denominator, zpow_eq_div two_ne_zero, Nat.shiftLeft_eq, Nat.one_shiftLeft]
  push_cast
  ring

/-! ### Rounding to natural numbers -/

section RoundToEven

variable {n d n' d' k : ℕ}

theorem div_le_roundToEven (n d : ℕ) : n / d ≤ roundToEven n d := by
  unfold roundToEven
  dsimp only
  split <;> omega

theorem roundToEven_le_div_add_one (n d : ℕ) : roundToEven n d ≤ n / d + 1 := by
  unfold roundToEven
  dsimp only
  split <;> omega

/-- A larger quotient is rounded to a number that is no smaller. -/
theorem roundToEven_le_roundToEven (hd : 0 < d) (hd' : 0 < d') (h : n * d' ≤ n' * d) :
    roundToEven n d ≤ roundToEven n' d' := by
  have hfloor : n / d ≤ n' / d' := by
    rw [Nat.le_div_iff_mul_le hd']
    refine Nat.le_of_mul_le_mul_right ?_ hd
    calc n / d * d' * d = n / d * d * d' := by ring
      _ ≤ n * d' := Nat.mul_le_mul_right _ (Nat.div_mul_le_self n d)
      _ ≤ n' * d := h
  rcases hfloor.lt_or_eq with hlt | heq
  · exact (roundToEven_le_div_add_one n d).trans (Nat.le_trans hlt (div_le_roundToEven n' d'))
  · have hrest : n % d * d' ≤ n' % d' * d := by
      have hn := Nat.div_add_mod n d
      have hn' := Nat.div_add_mod n' d'
      rw [← hn, ← hn', heq] at h
      linarith
    have hhalf : d ≤ 2 * (n % d) → d' ≤ 2 * (n' % d') := fun hup => by
      refine Nat.le_of_mul_le_mul_right (?_ : d' * d ≤ 2 * (n' % d') * d) hd
      nlinarith
    have htie : 2 * (n' % d') = d' → 2 * (n % d) ≤ d := fun htie => by
      refine Nat.le_of_mul_le_mul_right (?_ : 2 * (n % d) * d' ≤ d * d') hd'
      nlinarith
    -- Where the first quotient is rounded up, the second one is.
    unfold roundToEven
    dsimp only
    rw [heq]
    split_ifs with hup hup'
    all_goals omega

theorem roundToEven_mul (hd : 0 < d) : roundToEven (k * d) d = k := by
  unfold roundToEven
  dsimp only
  rw [Nat.mul_div_cancel _ hd, Nat.mul_mod_left]
  split <;> omega

theorem roundToEven_le (hd : 0 < d) (h : n ≤ k * d) : roundToEven n d ≤ k := by
  calc roundToEven n d ≤ roundToEven (k * d) d :=
        roundToEven_le_roundToEven hd hd (Nat.mul_le_mul_right d h)
    _ = k := roundToEven_mul hd

theorem le_roundToEven (hd : 0 < d) (h : k * d ≤ n) : k ≤ roundToEven n d := by
  calc k = roundToEven (k * d) d := (roundToEven_mul hd).symm
    _ ≤ roundToEven n d := roundToEven_le_roundToEven hd hd (Nat.mul_le_mul_right d h)

end RoundToEven

/-! ### The unit of the last place -/

section Place

variable {n d n' d' : ℕ}

/-- The numerator and the denominator of a quotient in units of a power of two. -/
theorem scaled_eq (n d : ℕ) (e : ℤ) :
    ((n <<< (-e).toNat : ℕ) : ℚ) / (d <<< e.toNat : ℕ) = n / d / 2 ^ e := by
  rw [zpow_eq_div two_ne_zero, Nat.shiftLeft_eq, Nat.shiftLeft_eq]
  push_cast
  rw [div_div_div_eq, mul_comm (d : ℚ)]

theorem shiftLeft_pos (hd : 0 < d) (k : ℕ) : 0 < d <<< k := by
  rw [Nat.shiftLeft_eq]
  positivity

theorem shiftLeft_le_iff (hd : 0 < d) (e : ℤ) :
    d <<< e.toNat ≤ n <<< (-e).toNat ↔ (2 : ℚ) ^ e ≤ n / d := by
  have hpos : (0 : ℚ) < (d <<< e.toNat : ℕ) := by exact_mod_cast shiftLeft_pos hd _
  have hpow : (0 : ℚ) < 2 ^ e := by positivity
  rw [← one_le_div hpow, ← scaled_eq, one_le_div hpos]
  exact_mod_cast Iff.rfl

theorem lt_two_zpow_log2 (n : ℕ) (hd : 0 < d) :
    (n : ℚ) / d < 2 ^ ((n.log2 : ℤ) - d.log2 + 1) := by
  have hn : (n : ℚ) < 2 ^ ((n.log2 : ℤ) + 1) := by exact_mod_cast Nat.lt_log2_self
  have hd' : (2 : ℚ) ^ (d.log2 : ℤ) ≤ d := by exact_mod_cast Nat.log2_self_le hd.ne'
  rw [div_lt_iff₀ (by exact_mod_cast hd)]
  calc (n : ℚ) < 2 ^ ((n.log2 : ℤ) + 1) := hn
    _ = 2 ^ ((n.log2 : ℤ) - d.log2 + 1) * 2 ^ (d.log2 : ℤ) := by
      rw [← zpow_add₀ two_ne_zero]
      congr 1
      ring
    _ ≤ 2 ^ ((n.log2 : ℤ) - d.log2 + 1) * d := by gcongr

theorem two_zpow_log2_le (hn : 0 < n) (hd : 0 < d) :
    (2 : ℚ) ^ ((n.log2 : ℤ) - d.log2 - 1) ≤ n / d := by
  have hn' : (2 : ℚ) ^ (n.log2 : ℤ) ≤ n := by exact_mod_cast Nat.log2_self_le hn.ne'
  have hd' : (d : ℚ) < 2 ^ ((d.log2 : ℤ) + 1) := by exact_mod_cast Nat.lt_log2_self
  rw [le_div_iff₀ (by exact_mod_cast hd)]
  calc (2 : ℚ) ^ ((n.log2 : ℤ) - d.log2 - 1) * d
      ≤ 2 ^ ((n.log2 : ℤ) - d.log2 - 1) * 2 ^ ((d.log2 : ℤ) + 1) := by gcongr
    _ = 2 ^ (n.log2 : ℤ) := by
      rw [← zpow_add₀ two_ne_zero]
      congr 1
      ring
    _ ≤ n := hn'

/-- The leading binary digit of a quotient stands at the exponent. -/
theorem two_zpow_leadingExponent (hn : 0 < n) (hd : 0 < d) :
    (2 : ℚ) ^ leadingExponent n d ≤ n / d ∧ (n : ℚ) / d < 2 ^ (leadingExponent n d + 1) := by
  unfold leadingExponent
  dsimp only
  split
  · rename_i hreached
    exact ⟨(shiftLeft_le_iff hd _).1 hreached, lt_two_zpow_log2 n hd⟩
  · rename_i hreached
    rw [sub_add_cancel]
    exact ⟨two_zpow_log2_le hn hd, not_le.1 (mt (shiftLeft_le_iff hd _).2 hreached)⟩

/-- The unit of the last place that a quotient is rounded to, as a power of two. -/
def lastPlace (n d : ℕ) : ℤ :=
  max (leadingExponent n d - 52) (-1074)

/-- How many of these units are nearest to the quotient. -/
def units (n d : ℕ) : ℕ :=
  roundToEven (n <<< (-lastPlace n d).toNat) (d <<< (lastPlace n d).toNat)

/-- The quotient rounded, however large it is. -/
def nearest (n d : ℕ) : ℚ :=
  units n d * 2 ^ lastPlace n d

theorem leadingExponent_le_lastPlace (n d : ℕ) : leadingExponent n d ≤ lastPlace n d + 52 := by
  rw [lastPlace]
  omega

theorem leadingBit_cast : (leadingBit : ℚ) = 2 ^ (52 : ℤ) := by
  norm_num [leadingBit]

theorem units_le (hn : 0 < n) (hd : 0 < d) : units n d ≤ 2 * leadingBit := by
  have hD := shiftLeft_pos hd (lastPlace n d).toNat
  have hplace := leadingExponent_le_lastPlace n d
  refine roundToEven_le hD ?_
  have hscaled : ((n <<< (-lastPlace n d).toNat : ℕ) : ℚ) / (d <<< (lastPlace n d).toNat : ℕ) ≤
      2 * leadingBit := by
    rw [scaled_eq, div_le_iff₀ (by positivity), leadingBit_cast]
    calc (n : ℚ) / d ≤ 2 ^ (leadingExponent n d + 1) := (two_zpow_leadingExponent hn hd).2.le
      _ ≤ 2 ^ (1 + 52 + lastPlace n d) := zpow_le_zpow_right₀ one_le_two (by omega)
      _ = 2 * 2 ^ (52 : ℤ) * 2 ^ lastPlace n d := by
        rw [zpow_add₀ two_ne_zero, zpow_add₀ two_ne_zero, zpow_one]
  rw [div_le_iff₀ (by exact_mod_cast hD)] at hscaled
  exact_mod_cast hscaled

/-- Unless the exponent is the least one, all digits of the significand are used. -/
theorem leadingBit_le_units (hn : 0 < n) (hd : 0 < d) (h : -1074 < lastPlace n d) :
    leadingBit ≤ units n d := by
  have hD := shiftLeft_pos hd (lastPlace n d).toNat
  have hplace : leadingExponent n d = 52 + lastPlace n d := by
    rw [lastPlace] at h ⊢
    omega
  refine le_roundToEven hD ?_
  have hscaled : (leadingBit : ℚ) ≤
      ((n <<< (-lastPlace n d).toNat : ℕ) : ℚ) / (d <<< (lastPlace n d).toNat : ℕ) := by
    rw [scaled_eq, le_div_iff₀ (by positivity), leadingBit_cast, ← zpow_add₀ two_ne_zero, ← hplace]
    exact (two_zpow_leadingExponent hn hd).1
  rw [le_div_iff₀ (by exact_mod_cast hD)] at hscaled
  exact_mod_cast hscaled

theorem nearest_zero (hd : 0 < d) : nearest 0 d = 0 := by
  have hunits : units 0 d = 0 :=
    Nat.le_zero.1 (roundToEven_le (shiftLeft_pos hd _) (by simp))
  rw [nearest, hunits, Nat.cast_zero, zero_mul]

theorem leadingExponent_le_leadingExponent (hn : 0 < n) (hn' : 0 < n') (hd : 0 < d) (hd' : 0 < d')
    (h : (n : ℚ) / d ≤ n' / d') : leadingExponent n d ≤ leadingExponent n' d' := by
  have hlt : (2 : ℚ) ^ leadingExponent n d < 2 ^ (leadingExponent n' d' + 1) :=
    calc (2 : ℚ) ^ leadingExponent n d ≤ n / d := (two_zpow_leadingExponent hn hd).1
      _ ≤ n' / d' := h
      _ < 2 ^ (leadingExponent n' d' + 1) := (two_zpow_leadingExponent hn' hd').2
  exact Int.lt_add_one_iff.1 ((zpow_lt_zpow_iff_right₀ one_lt_two).1 hlt)

/-- A larger quotient has a nearest number that is no smaller. -/
theorem nearest_le_nearest (hd : 0 < d) (hd' : 0 < d') (h : n * d' ≤ n' * d) :
    nearest n d ≤ nearest n' d' := by
  rcases Nat.eq_zero_or_pos n with rfl | hn
  · rw [nearest_zero hd, nearest]
    positivity
  have hn' : 0 < n' := by
    rcases Nat.eq_zero_or_pos n' with rfl | hn'
    · nlinarith
    · exact hn'
  have hquotient : (n : ℚ) / d ≤ n' / d' := by
    rw [div_le_div_iff₀ (by exact_mod_cast hd) (by exact_mod_cast hd')]
    exact_mod_cast h
  have hexponent := leadingExponent_le_leadingExponent hn hn' hd hd' hquotient
  have hplace : lastPlace n d ≤ lastPlace n' d' := by
    rw [lastPlace, lastPlace]
    omega
  rcases hplace.lt_or_eq with hlt | heq
  · -- Every number with the smaller unit is below those with the larger one.
    have hleast : -1074 ≤ lastPlace n d := le_max_right _ _
    calc nearest n d ≤ 2 * leadingBit * 2 ^ lastPlace n d := by
          rw [nearest]
          gcongr
          exact_mod_cast units_le hn hd
      _ = leadingBit * 2 ^ (lastPlace n d + 1) := by rw [zpow_add₀ two_ne_zero, zpow_one]; ring
      _ ≤ leadingBit * 2 ^ lastPlace n' d' := by
          gcongr
          · exact one_le_two
          · omega
      _ ≤ nearest n' d' := by
          rw [nearest]
          gcongr
          exact leadingBit_le_units hn' hd' (by omega)
  · have hunits : units n d ≤ units n' d' := by
      rw [units, units, ← heq]
      refine roundToEven_le_roundToEven (shiftLeft_pos hd _) (shiftLeft_pos hd' _) ?_
      simp only [Nat.shiftLeft_eq]
      calc n * 2 ^ (-lastPlace n d).toNat * (d' * 2 ^ (lastPlace n d).toNat)
          = n * d' * (2 ^ (-lastPlace n d).toNat * 2 ^ (lastPlace n d).toNat) := by ring
        _ ≤ n' * d * (2 ^ (-lastPlace n d).toNat * 2 ^ (lastPlace n d).toNat) :=
          Nat.mul_le_mul_right _ h
        _ = n' * 2 ^ (-lastPlace n d).toNat * (d * 2 ^ (lastPlace n d).toNat) := by ring
    rw [nearest, nearest, ← heq]
    gcongr

end Place

/-! ### Numbers that aren't too large -/

section Ratio

variable {n d n' d' : ℕ}

/-- The nearest number, with a significand that fits. -/
def rounded (n d : ℕ) : Binary :=
  if units n d = 2 * leadingBit then ⟨leadingBit, lastPlace n d + 1⟩
  else ⟨units n d, lastPlace n d⟩

theorem ofRatio?_eq_rounded (hn : 0 < n) :
    ofRatio? n d = if (rounded n d).exponent ≤ 971 then some (rounded n d) else none := by
  rw [ofRatio?, if_neg hn.ne']
  rfl

theorem value_rounded (n d : ℕ) : (rounded n d).value = nearest n d := by
  rw [rounded, nearest]
  split
  · rename_i hcarry
    rw [hcarry, value, zpow_add₀ two_ne_zero, zpow_one]
    push_cast
    ring
  · rfl

theorem exponent_rounded_le_iff (hn : 0 < n) (hd : 0 < d) :
    (rounded n d).exponent ≤ 971 ↔ nearest n d < 2 ^ (1024 : ℤ) := by
  have hunits := units_le hn hd
  have hfull := leadingBit_le_units hn hd
  rw [rounded, nearest]
  split
  · rename_i hcarry
    have hvalue : ((2 * leadingBit : ℕ) : ℚ) * 2 ^ lastPlace n d = 2 ^ (53 + lastPlace n d) := by
      rw [zpow_add₀ two_ne_zero]
      norm_num [leadingBit]
    rw [hcarry, hvalue, zpow_lt_zpow_iff_right₀ one_lt_two]
    dsimp only
    omega
  · rename_i hcarry
    have hbelow : (units n d : ℚ) < 2 ^ (53 : ℤ) := by
      have hlt : units n d < 2 * leadingBit := by omega
      calc (units n d : ℚ) < (2 * leadingBit : ℕ) := by exact_mod_cast hlt
        _ = 2 ^ (53 : ℤ) := by norm_num [leadingBit]
    constructor
    · intro hexponent
      calc (units n d : ℚ) * 2 ^ lastPlace n d < 2 ^ (53 : ℤ) * 2 ^ lastPlace n d := by gcongr
        _ = 2 ^ (53 + lastPlace n d) := (zpow_add₀ two_ne_zero _ _).symm
        _ ≤ 2 ^ (1024 : ℤ) := zpow_le_zpow_right₀ one_le_two (by dsimp only at hexponent; omega)
    · intro hlt
      by_contra hexponent
      dsimp only at hexponent
      refine absurd hlt (not_lt.2 ?_)
      have hleast : (2 : ℚ) ^ (52 : ℤ) ≤ units n d := by
        rw [← leadingBit_cast]
        exact_mod_cast hfull (by omega)
      calc (2 : ℚ) ^ (1024 : ℤ) ≤ 2 ^ (52 + lastPlace n d) :=
            zpow_le_zpow_right₀ one_le_two (by omega)
        _ = 2 ^ (52 : ℤ) * 2 ^ lastPlace n d := zpow_add₀ two_ne_zero _ _
        _ ≤ units n d * 2 ^ lastPlace n d := by gcongr

/-- The nearest number is the result, unless the format has no number as large. -/
theorem ofRatio?_eq_some_iff (hn : 0 < n) (hd : 0 < d) {b : Binary} :
    ofRatio? n d = some b ↔ nearest n d < 2 ^ (1024 : ℤ) ∧ rounded n d = b := by
  rw [ofRatio?_eq_rounded hn, Option.ite_none_right_eq_some, exponent_rounded_le_iff hn hd,
    Option.some.injEq]

/-- The result of rounding is the nearest number. -/
theorem value_of_ofRatio? (hd : 0 < d) {b : Binary} (h : ofRatio? n d = some b) :
    b.value = nearest n d := by
  rcases Nat.eq_zero_or_pos n with rfl | hn
  · obtain rfl := Option.some.inj h
    rw [nearest_zero hd, value, zero, Nat.cast_zero, zero_mul]
  · obtain ⟨_, rfl⟩ := (ofRatio?_eq_some_iff hn hd).1 h
    exact value_rounded n d

/-- Where a quotient isn't too large, no smaller one is, and its nearest number is no larger. -/
theorem exists_ofRatio?_of_le {b' : Binary} (hd : 0 < d) (hd' : 0 < d') (h : n * d' ≤ n' * d)
    (hb' : ofRatio? n' d' = some b') : ∃ b, ofRatio? n d = some b ∧ b.value ≤ b'.value := by
  rcases Nat.eq_zero_or_pos n with rfl | hn
  · refine ⟨zero, rfl, ?_⟩
    rw [value, zero, Nat.cast_zero, zero_mul]
    exact mul_nonneg (Nat.cast_nonneg _) (by positivity)
  have hn' : 0 < n' := Nat.pos_of_mul_pos_right ((Nat.mul_pos hn hd').trans_le h)
  obtain ⟨hlt, rfl⟩ := (ofRatio?_eq_some_iff hn' hd').1 hb'
  have hle := nearest_le_nearest hd hd' h
  refine ⟨rounded n d, (ofRatio?_eq_some_iff hn hd).2 ⟨hle.trans_lt hlt, rfl⟩, ?_⟩
  rwa [value_rounded, value_rounded]

end Ratio

/-! ### Products and quotients -/

theorem value_le_value_iff {a b : Binary} :
    a.value ≤ b.value ↔ a.numerator * b.denominator ≤ b.numerator * a.denominator := by
  rw [value_eq, value_eq, div_le_div_iff₀ (by exact_mod_cast a.denominator_pos)
    (by exact_mod_cast b.denominator_pos)]
  exact_mod_cast Iff.rfl

theorem exists_ofNat?_of_le {n n' : ℕ} {b' : Binary} (h : n ≤ n') (hb' : ofNat? n' = some b') :
    ∃ b, ofNat? n = some b ∧ b.value ≤ b'.value :=
  exists_ofRatio?_of_le one_pos one_pos (Nat.mul_le_mul_right 1 h) hb'

/-- Smaller factors don't make a product too large. -/
theorem exists_mul?_of_le {a a' p p' b' : Binary} (ha : a.value ≤ a'.value)
    (hp : p.value ≤ p'.value) (hb' : a'.mul? p' = some b') :
    ∃ b, a.mul? p = some b ∧ b.value ≤ b'.value := by
  refine exists_ofRatio?_of_le (Nat.mul_pos a.denominator_pos p.denominator_pos)
    (Nat.mul_pos a'.denominator_pos p'.denominator_pos) ?_ hb'
  calc a.numerator * p.numerator * (a'.denominator * p'.denominator)
      = a.numerator * a'.denominator * (p.numerator * p'.denominator) := by ring
    _ ≤ a'.numerator * a.denominator * (p'.numerator * p.denominator) :=
      Nat.mul_le_mul (value_le_value_iff.1 ha) (value_le_value_iff.1 hp)
    _ = a'.numerator * p'.numerator * (a.denominator * p.denominator) := by ring

/-- Dividing by a number from one on gives nothing larger. -/
theorem exists_div?_of_le {a a' p b' : Binary} (h : a.value ≤ a'.value) (hp : 1 ≤ p.value)
    (hb' : ofRatio? a'.numerator a'.denominator = some b') :
    ∃ b, a.div? p = some b ∧ b.value ≤ b'.value := by
  have hp' : p.denominator ≤ p.numerator := by
    rw [value_eq, one_le_div (by exact_mod_cast p.denominator_pos)] at hp
    exact_mod_cast hp
  refine exists_ofRatio?_of_le (Nat.mul_pos a.denominator_pos (p.denominator_pos.trans_le hp'))
    a'.denominator_pos ?_ hb'
  calc a.numerator * p.denominator * a'.denominator
      = a.numerator * a'.denominator * p.denominator := by ring
    _ ≤ a'.numerator * a.denominator * p.numerator :=
      Nat.mul_le_mul (value_le_value_iff.1 h) hp'
    _ = a'.numerator * (a.denominator * p.numerator) := by ring

end Binary

end InfraGraph.Decimal
