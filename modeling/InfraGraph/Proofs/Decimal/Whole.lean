import InfraGraph.Proofs.Decimal.Bits

/-!
# Whole numbers of double precision

Whole numbers below `2 ^ 53` are numbers of double precision, and the shortest decimal of one is the
number itself, without zeros at its end.  Ten times the number need not be of double precision.  If
it is rounded first and a tenth of it is rounded afterwards, the number comes back if the first
rounding was by less than half a unit of the number's last place.
-/

namespace InfraGraph.Decimal

namespace Binary

/-! ### Rounding within a power of two -/

section Nearest

variable {n d n' d' : ℕ} {e : ℤ}

/-- The nearest number depends on the quotient only. -/
theorem nearest_eq_nearest (hd : 0 < d) (hd' : 0 < d') (h : n * d' = n' * d) :
    nearest n d = nearest n' d' :=
  le_antisymm (nearest_le_nearest hd hd' h.le) (nearest_le_nearest hd' hd h.ge)

theorem leadingExponent_lt (hn : 0 < n) (hd : 0 < d) (h : (n : ℚ) / d < 2 ^ e) :
    leadingExponent n d < e :=
  (zpow_lt_zpow_iff_right₀ one_lt_two).1 ((two_zpow_leadingExponent hn hd).1.trans_lt h)

theorem le_leadingExponent (hn : 0 < n) (hd : 0 < d) (h : (2 : ℚ) ^ e ≤ n / d) :
    e ≤ leadingExponent n d :=
  Int.lt_add_one_iff.1 <|
    (zpow_lt_zpow_iff_right₀ one_lt_two).1 (h.trans_lt (two_zpow_leadingExponent hn hd).2)

theorem lastPlace_eq (hd : 0 < d) (hlow : (2 : ℚ) ^ (52 + e) ≤ n / d)
    (hhigh : (n : ℚ) / d < 2 ^ (53 + e)) (he : -1074 ≤ e) : lastPlace n d = e := by
  have hn : 0 < n := by
    rw [Nat.pos_iff_ne_zero]
    rintro rfl
    rw [Nat.cast_zero, zero_div] at hlow
    exact absurd hlow (not_le.2 (by positivity))
  have hle := le_leadingExponent hn hd hlow
  have hlt := leadingExponent_lt hn hd hhigh
  rw [lastPlace]
  omega

/-- A number of double precision is the one that is nearest to it. -/
theorem Fits.nearest_eq {b : Binary} (hb : b.Fits) :
    nearest b.numerator b.denominator = b.value := by
  have hd := b.denominator_pos
  rcases Nat.eq_zero_or_pos b.numerator with hzero | hn
  · rw [hzero, nearest_zero hd, value_eq, hzero, Nat.cast_zero, zero_div]
  have hplace : lastPlace b.numerator b.denominator ≤ b.exponent := by
    have hlt : leadingExponent b.numerator b.denominator < 53 + b.exponent := by
      refine leadingExponent_lt hn hd ?_
      have hsignificand : (b.significand : ℚ) < 2 * leadingBit := by exact_mod_cast hb.significand
      calc (b.numerator : ℚ) / b.denominator = b.significand * 2 ^ b.exponent := b.value_eq.symm
        _ < 2 * leadingBit * 2 ^ b.exponent := by gcongr
        _ = 2 ^ (53 + b.exponent) := by
          rw [leadingBit_cast, zpow_add₀ two_ne_zero]
          norm_num
    have hleast := hb.least
    rw [lastPlace]
    omega
  obtain ⟨k, hk⟩ := Int.le.dest hplace
  -- The number is a multiple of the unit of its last place.
  have hmultiple : b.numerator <<< (-lastPlace b.numerator b.denominator).toNat =
      b.significand * 2 ^ k *
        (b.denominator <<< (lastPlace b.numerator b.denominator).toNat) := by
    have hpos := shiftLeft_pos hd (lastPlace b.numerator b.denominator).toNat
    have hscaled := scaled_eq b.numerator b.denominator (lastPlace b.numerator b.denominator)
    rw [← value_eq, value, div_eq_iff (by exact_mod_cast hpos.ne'), ← hk,
      zpow_add₀ two_ne_zero, zpow_natCast] at hscaled
    have hcancel : (b.significand : ℚ) *
        (2 ^ lastPlace b.numerator b.denominator * 2 ^ k) /
          2 ^ lastPlace b.numerator b.denominator = (b.significand * 2 ^ k : ℕ) := by
      push_cast
      field_simp
    rw [hcancel] at hscaled
    exact_mod_cast hscaled
  rw [nearest, units, hmultiple, roundToEven_mul (shiftLeft_pos hd _), value, ← hk,
    zpow_add₀ two_ne_zero, zpow_natCast]
  push_cast
  ring

/-- Rounding changes a quotient by a half at most. -/
theorem roundToEven_spec (n : ℕ) (hd : 0 < d) :
    2 * n ≤ 2 * (roundToEven n d * d) + d ∧ 2 * (roundToEven n d * d) ≤ 2 * n + d := by
  have hn := Nat.div_add_mod' n d
  have hrest := Nat.mod_lt n hd
  unfold roundToEven
  dsimp only
  split <;> rename_i hup
  · rw [Nat.add_one_mul (n / d)]
    generalize n / d * d = below at hn ⊢
    omega
  · generalize n / d * d = below at hn ⊢
    omega

/-- A large whole number is rounded by half a unit at most. -/
theorem exists_nearest_natCast {j : ℕ} (hlow : 2 ^ (52 + j) ≤ n) (hhigh : n < 2 ^ (53 + j)) :
    ∃ q : ℕ, nearest n 1 = (q * 2 ^ j : ℕ) ∧ 2 * n ≤ 2 * (q * 2 ^ j) + 2 ^ j ∧
      2 * (q * 2 ^ j) ≤ 2 * n + 2 ^ j := by
  have hplace : lastPlace n 1 = j := by
    refine lastPlace_eq one_pos ?_ ?_ (by omega)
    · rw [Nat.cast_one, div_one]
      exact_mod_cast hlow
    · rw [Nat.cast_one, div_one]
      exact_mod_cast hhigh
  refine ⟨roundToEven n (2 ^ j), ?_, roundToEven_spec n (Nat.two_pow_pos j)⟩
  rw [nearest, units, hplace]
  simp [Nat.shiftLeft_eq]

/-- The nearest number of a quotient, in fractions that are powers of two. -/
theorem nearest_eq_div {t : ℕ} (hd : 0 < d) (ht : t ≤ 52) (hlow : 2 ^ 52 * d ≤ n * 2 ^ t)
    (hhigh : n * 2 ^ t < 2 ^ 53 * d) :
    nearest n d = (roundToEven (n * 2 ^ t) d : ℚ) / 2 ^ t := by
  have hd' : (0 : ℚ) < d := by exact_mod_cast hd
  have hplace : lastPlace n d = -(t : ℤ) := by
    refine lastPlace_eq hd ?_ ?_ (by omega)
    · rw [le_div_iff₀ hd', ← sub_eq_add_neg, zpow_sub₀ two_ne_zero, zpow_natCast,
        div_mul_eq_mul_div, div_le_iff₀ (by positivity)]
      exact_mod_cast hlow
    · rw [div_lt_iff₀ hd', ← sub_eq_add_neg, zpow_sub₀ two_ne_zero, zpow_natCast,
        div_mul_eq_mul_div, lt_div_iff₀ (by positivity)]
      exact_mod_cast hhigh
  rw [nearest, units, hplace, zpow_neg, zpow_natCast, ← div_eq_mul_inv]
  simp [Nat.shiftLeft_eq]

end Nearest

/-! ### Ten times a number -/

/-- Ten times the number is rounded by less than half a unit of the number's last place.  Nothing is
rounded up to `2 ^ 54`, and from there on to multiples of four, eight and sixteen; the units of the
numbers are a fourth, a half and one. -/
@[mk_iff]
structure IsTenfoldKept (n : ℕ) : Prop where
  fourth : 2 ^ 54 < 10 * n → n < 2 ^ 51 → n % 2 = 0
  half : 2 ^ 55 < 10 * n → n < 2 ^ 52 → n % 4 ≠ 2
  one : 2 ^ 56 < 10 * n → n % 8 = 0 ∨ n % 8 = 2 ∨ n % 8 = 3 ∨ n % 8 = 5 ∨ n % 8 = 6

instance (n : ℕ) : Decidable (IsTenfoldKept n) :=
  decidable_of_iff' _ (isTenfoldKept_iff n)

theorem isTenfoldKept_of_le {n : ℕ} (h : 10 * n ≤ 2 ^ 54) : IsTenfoldKept n where
  fourth hlarge := absurd h (not_le.2 hlarge)
  half hlarge := absurd h (not_le.2 ((Nat.pow_lt_pow_right one_lt_two (by decide)).trans hlarge))
  one hlarge := absurd h (not_le.2 ((Nat.pow_lt_pow_right one_lt_two (by decide)).trans hlarge))

section Tenfold

variable {n : ℕ}

theorem nearest_natCast_of_lt {k : ℕ} (j : ℕ) (hk : k < 2 ^ 53) (hj : j ≤ 971) :
    nearest (k * 2 ^ j) 1 = (k * 2 ^ j : ℕ) := by
  have hfits : Fits ⟨k, j⟩ := ⟨by simpa [leadingBit] using hk, by dsimp only; omega,
    by dsimp only; omega⟩
  simpa [numerator, denominator, value, Nat.shiftLeft_eq] using hfits.nearest_eq

theorem roundToEven_ten_iff {m k : ℕ} (heven : m % 2 = 0) :
    roundToEven m 10 = k ↔ 10 * k < m + 5 ∧ m < 10 * k + 5 := by
  unfold roundToEven
  dsimp only
  split <;> omega

/-- A tenth is rounded to a number if it differs by less than half a unit of its last place.  Half a
unit would be half an odd number of tenths. -/
theorem nearest_tenth_iff {m t : ℕ} (heven : m % 2 = 0) (ht : t ≤ 52)
    (hlow : 2 ^ 52 * 10 ≤ m * 2 ^ t) (hhigh : m * 2 ^ t < 2 ^ 53 * 10) :
    nearest m 10 = n ↔ 10 * (n * 2 ^ t) < m * 2 ^ t + 5 ∧ m * 2 ^ t < 10 * (n * 2 ^ t) + 5 := by
  have heven' : m * 2 ^ t % 2 = 0 := by rw [Nat.mul_mod, heven, zero_mul, Nat.zero_mod]
  rw [nearest_eq_div (by decide) ht hlow hhigh, div_eq_iff (by positivity),
    ← roundToEven_ten_iff heven']
  exact_mod_cast Iff.rfl

/-- Ten times the number, rounded, has the number as its tenth, rounded. -/
theorem exists_nearest_tenfold (hn : n < 2 ^ 53) :
    ∃ m : ℕ, nearest (10 * n) 1 = m ∧ (nearest m 10 = n ↔ IsTenfoldKept n) := by
  rcases lt_or_ge (10 * n) (2 ^ 54) with hexact | h54
  · refine ⟨10 * n, ?_, iff_of_true ?_ (isTenfoldKept_of_le hexact.le)⟩
    · have hfive := nearest_natCast_of_lt (k := 5 * n) 1 (by omega) (by decide)
      have hten : 10 * n = 5 * n * 2 ^ 1 := by ring
      rw [hten, hfive]
    · have hsame := nearest_natCast_of_lt (k := n) 0 hn (by decide)
      rw [pow_zero, mul_one] at hsame
      rw [← hsame]
      exact nearest_eq_nearest (by decide) one_pos (by ring)
  -- The unit of ten times the number and that of the number change at different places.
  rcases lt_or_ge (10 * n) (2 ^ 55) with hlt | h55
  · obtain ⟨q, hq, hup, hdown⟩ := exists_nearest_natCast (j := 2) h54 hlt
    refine ⟨q * 2 ^ 2, hq, ?_⟩
    rcases lt_or_ge n (2 ^ 51) with hsmall | hlarge
    · rw [nearest_tenth_iff (t := 2) (by omega) (by decide) (by omega) (by omega),
        isTenfoldKept_iff]
      omega
    · rw [nearest_tenth_iff (t := 1) (by omega) (by decide) (by omega) (by omega),
        isTenfoldKept_iff]
      omega
  rcases lt_or_ge (10 * n) (2 ^ 56) with hlt | h56
  · obtain ⟨q, hq, hup, hdown⟩ := exists_nearest_natCast (j := 3) h55 hlt
    refine ⟨q * 2 ^ 3, hq, ?_⟩
    rcases lt_or_ge n (2 ^ 52) with hsmall | hlarge
    · rw [nearest_tenth_iff (t := 1) (by omega) (by decide) (by omega) (by omega),
        isTenfoldKept_iff]
      omega
    · rw [nearest_tenth_iff (t := 0) (by omega) (by decide) (by omega) (by omega),
        isTenfoldKept_iff]
      omega
  · obtain ⟨q, hq, hup, hdown⟩ := exists_nearest_natCast (j := 4) h56 (by omega)
    refine ⟨q * 2 ^ 4, hq, ?_⟩
    rw [nearest_tenth_iff (t := 0) (by omega) (by decide) (by omega) (by omega),
      isTenfoldKept_iff]
    omega

end Tenfold

end Binary

/-! ### The shortest decimal -/

theorem leadingDecimal_lt {n d : ℕ} (hd : 0 < d) {k : ℤ}
    (hguess : ((n.log2 : ℤ) - d.log2) * 30103 / 100000 ≤ k) (h : (n : ℚ) / d < 10 ^ k) :
    leadingDecimal n d < k := by
  have hreached : ∀ {e : ℤ}, (10 : ℚ) ^ e ≤ n / d → e < k := fun he =>
    (zpow_lt_zpow_iff_right₀ (by norm_num)).1 (he.trans_lt h)
  unfold leadingDecimal
  simp only [decide_eq_true_eq, reached_iff hd]
  split_ifs with h2 h1 h0
  · exact hreached h2
  · exact hreached h1
  · exact hreached h0
  · omega

theorem Scientific.le_exponent_trim (fuel : ℕ) (s : Scientific) :
    s.exponent ≤ (trim fuel s).exponent := by
  induction fuel generalizing s with
  | zero => exact le_rfl
  | succ fuel ih =>
      rw [trim]
      split
      · exact (Int.le_add_one le_rfl).trans (ih ⟨s.digits / 10, s.exponent + 1⟩)
      · exact le_rfl

/-- Both ends of the interval. -/
theorem ge_of_isInside {b : Binary} {place : ℤ} {point : ℕ} (h : IsInside b place point = true) :
    (4 * b.significand - 2) * gridUp b place ≤ point * gridDown b place := by
  have hlow : 4 * b.significand - 2 ≤ (Rounding.of b).low := by
    dsimp only [Rounding.of]
    split <;> omega
  refine (Nat.mul_le_mul_right _ hlow).trans ?_
  rw [IsInside] at h
  split at h <;> simp only [Bool.and_eq_true, decide_eq_true_eq] at h <;> omega

theorem isInside_of_gridPoint? {b : Binary} {place : ℤ} {s : Scientific}
    (h : gridPoint? b place = some s) : s.exponent = place ∧ IsInside b place s.digits = true := by
  rw [gridPoint?_eq] at h
  split at h
  · rename_i hinside
    obtain rfl := Option.some.inj h
    exact ⟨rfl, hinside⟩
  · rw [Option.ite_none_right_eq_some] at h
    obtain ⟨hinside, h⟩ := h
    obtain rfl := Option.some.inj h
    exact ⟨rfl, hinside⟩

namespace Binary

variable {b : Binary} {n : ℕ}

/-- The number is a whole one, and one is a multiple of the unit of its last place. -/
structure IsWhole (b : Binary) (n : ℕ) : Prop where
  exponent : b.exponent ≤ 0
  significand : b.significand = n * 2 ^ (-b.exponent).toNat

/-- Below `2 ^ 53`, all whole numbers are multiples of these units. -/
theorem IsCanonical.isWhole (hb : b.IsCanonical) (hvalue : b.value = n) (hn : n < 2 ^ 53) :
    b.IsWhole n := by
  have hexponent : b.exponent ≤ 0 := by
    by_contra hpos
    have hfull : (leadingBit : ℚ) ≤ b.significand := by exact_mod_cast hb.full (by omega)
    have hlarge : (2 : ℚ) ^ 53 ≤ b.value := by
      calc (2 : ℚ) ^ 53 = leadingBit * 2 ^ (1 : ℤ) := by norm_num [leadingBit]
        _ ≤ b.value := by
          rw [value]
          gcongr
          · exact one_le_two
          · omega
    rw [hvalue] at hlarge
    exact absurd hn (not_lt.2 (by exact_mod_cast hlarge))
  refine ⟨hexponent, ?_⟩
  have hunit : (2 : ℚ) ^ b.exponent = (2 ^ (-b.exponent).toNat)⁻¹ := by
    rw [← zpow_natCast, Int.toNat_of_nonneg (by omega), zpow_neg, inv_inv]
  rw [value, hunit, ← div_eq_mul_inv, div_eq_iff (by positivity)] at hvalue
  exact_mod_cast hvalue

theorem IsWhole.gridUp_eq (h : b.IsWhole n) (k : ℕ) : gridUp b k = 1 := by
  have hexponent := h.exponent
  have hplace : (-(k : ℤ)).toNat = 0 := by omega
  have hquarter : (b.exponent - 2).toNat = 0 := by omega
  rw [gridUp, hplace, hquarter]
  rfl

theorem IsWhole.gridDown_eq (h : b.IsWhole n) (k : ℕ) :
    gridDown b k = 10 ^ k * (4 * 2 ^ (-b.exponent).toNat) := by
  have hexponent := h.exponent
  have hquarter : (-(b.exponent - 2)).toNat = 2 + (-b.exponent).toNat := by omega
  rw [gridDown, Int.toNat_natCast, hquarter, Nat.shiftLeft_eq, pow_add]
  rfl

/-- A whole number that rounds to a whole number is the number. -/
theorem IsWhole.withZeros_eq (h : b.IsWhole n) {k point : ℕ}
    (hinside : IsInside b k point = true) : withZeros point k = n := by
  have hhigh := le_of_isInside hinside
  have hlow := ge_of_isInside hinside
  have hunit : 0 < 2 ^ (-b.exponent).toNat := Nat.two_pow_pos _
  have hpoint : point * (10 ^ k * (4 * 2 ^ (-b.exponent).toNat)) =
      withZeros point k * (4 * 2 ^ (-b.exponent).toNat) := by
    rw [withZeros, mul_assoc]
  rw [h.gridUp_eq, h.gridDown_eq, h.significand, mul_one, hpoint] at hhigh hlow
  generalize 2 ^ (-b.exponent).toNat = unit at hhigh hlow hunit
  -- Both are whole, and their distance is below one.
  have hle : withZeros point k < n + 1 := by
    refine Nat.lt_of_mul_lt_mul_right (a := 4 * unit) ?_
    rw [Nat.add_one_mul]
    linarith
  have hge : n < withZeros point k + 1 := by
    refine Nat.lt_of_mul_lt_mul_right (a := 4 * unit) ?_
    rw [Nat.add_one_mul]
    have hlow' := Nat.sub_le_iff_le_add.1 hlow
    linarith
  omega

theorem IsWhole.gridPoint?_zero (h : b.IsWhole n) : gridPoint? b 0 = some ⟨n, 0⟩ := by
  have hup : gridUp b 0 = 1 := h.gridUp_eq 0
  have hdown : gridDown b 0 = 4 * 2 ^ (-b.exponent).toNat :=
    (h.gridDown_eq 0).trans (one_mul _)
  have hcentre : 4 * b.significand * gridUp b 0 = n * gridDown b 0 := by
    rw [hup, hdown, h.significand]
    ring
  have hpos : 0 < gridDown b 0 := gridDown_pos
  have hbelow : gridBelow b 0 = n := by
    rw [gridBelow, hcentre, Nat.mul_div_cancel _ hpos]
  have hnearer : gridNearer b 0 = n := by
    rw [gridNearer, hcentre, Nat.mul_mod_left, hbelow]
    exact if_pos (.inl hpos)
  have hinside : IsInside b 0 n = true := by
    rw [IsInside, ← hcentre, hup]
    simp only [Rounding.of, decide_eq_true_eq]
    split_ifs <;>
      exact Bool.and_eq_true_iff.2 ⟨decide_eq_true (by omega), decide_eq_true (by omega)⟩
  rw [gridPoint?_eq, hnearer, if_pos hinside]

theorem denominator_eq (b : Binary) : b.denominator = 2 ^ (-b.exponent).toNat := by
  rw [denominator, Nat.one_shiftLeft]

theorem IsWhole.numerator_eq (h : b.IsWhole n) : b.numerator = n * b.denominator := by
  rw [numerator, Int.toNat_of_nonpos h.exponent, Nat.shiftLeft_zero, h.significand,
    b.denominator_eq]

/-- The digits of a whole number start at a place from the ones on. -/
theorem IsWhole.leadingDecimal_spec (h : b.IsWhole n) (hpos : 0 < n) (hn : n < 2 ^ 53) :
    0 ≤ leadingDecimal b.numerator b.denominator ∧
      leadingDecimal b.numerator b.denominator < 16 := by
  have hd := b.denominator_pos
  have hvalue : (b.numerator : ℚ) / b.denominator = n := by
    rw [h.numerator_eq, Nat.cast_mul, mul_div_cancel_right₀ _ (by exact_mod_cast hd.ne')]
  have hne : b.numerator ≠ 0 := by
    rw [h.numerator_eq]
    positivity
  have hlog : b.denominator.log2 = (-b.exponent).toNat := by
    rw [b.denominator_eq, Nat.log2_two_pow]
  have hleast : (-b.exponent).toNat ≤ b.numerator.log2 := by
    rw [Nat.le_log2 hne, ← b.denominator_eq, h.numerator_eq]
    exact Nat.le_mul_of_pos_left _ hpos
  have hmost : b.numerator.log2 < 53 + (-b.exponent).toNat := by
    rw [Nat.log2_lt hne, pow_add, ← b.denominator_eq, h.numerator_eq]
    exact Nat.mul_lt_mul_of_pos_right hn hd
  constructor
  · have hten : (10 : ℚ) ^ (0 : ℤ) < 10 ^ (leadingDecimal b.numerator b.denominator + 1) := by
      rw [zpow_zero]
      refine lt_of_le_of_lt ?_ (lt_ten_zpow_leadingDecimal hd (by omega))
      rw [hvalue]
      exact_mod_cast hpos
    exact Int.lt_add_one_iff.1 ((zpow_lt_zpow_iff_right₀ (by norm_num)).1 hten)
  · refine leadingDecimal_lt hd (by omega) ?_
    rw [hvalue]
    calc (n : ℚ) < 2 ^ 53 := by exact_mod_cast hn
      _ < 10 ^ (16 : ℤ) := by norm_num

/-- The first grid with a point that rounds to a whole number has the number as a point. -/
theorem IsWhole.exists_hit (h : b.IsWhole n) {top : ℕ} (htop : top < 17) :
    ∃ k s, ((List.range 17).findSome? fun i : ℕ => gridPoint? b (top - (i : ℤ))) = some s ∧
      s.exponent = (k : ℕ) ∧ withZeros s.digits k = n := by
  have hones : gridPoint? b ((top : ℤ) - (top : ℕ)) = some ⟨n, 0⟩ := by
    rw [sub_self]
    exact h.gridPoint?_zero
  obtain ⟨s, hhit⟩ : ∃ s,
      ((List.range 17).findSome? fun i : ℕ => gridPoint? b (top - (i : ℤ))) = some s := by
    rw [← Option.isSome_iff_exists, List.findSome?_isSome_iff]
    exact ⟨top, List.mem_range.2 htop, by rw [hones]; rfl⟩
  obtain ⟨before, i, after, hsplit, hpoint, hnone⟩ := List.findSome?_eq_some_iff.1 hhit
  -- The grid of the whole numbers has the number, so none behind it is reached.
  have hle : i ≤ top := by
    have hmem : top ∈ before ++ i :: after := hsplit ▸ List.mem_range.2 htop
    have hsorted : (before ++ i :: after).Pairwise (· < ·) := hsplit ▸ List.pairwise_lt_range
    rcases List.mem_append.1 hmem with hbefore | hfrom
    · cases (hnone top hbefore).symm.trans hones
    · rcases List.mem_cons.1 hfrom with rfl | hafter
      · exact le_rfl
      · exact (List.rel_of_pairwise_cons (List.pairwise_append.1 hsorted).2.1 hafter).le
  obtain ⟨k, rfl⟩ := Nat.exists_eq_add_of_le hle
  have hplace : (((i + k : ℕ) : ℤ) - (i : ℕ)) = k := by
    push_cast
    ring
  rw [hplace] at hpoint
  obtain ⟨hexponent, hinside⟩ := isInside_of_gridPoint? hpoint
  exact ⟨k, s, hhit, hexponent, h.withZeros_eq hinside⟩

/-- The shortest decimal of a whole number is the number, with zeros behind its digits. -/
theorem IsWhole.shortest_eq (h : b.IsWhole n) (hn : n < 2 ^ 53) :
    ∃ k : ℕ, (shortest b).exponent = k ∧ withZeros (shortest b).digits k = n := by
  rcases Nat.eq_zero_or_pos n with rfl | hpos
  · have hzero : b.significand = 0 := by rw [h.significand, zero_mul]
    rw [shortest, if_pos hzero]
    exact ⟨0, rfl, rfl⟩
  have hne : b.significand ≠ 0 := by
    rw [h.significand]
    positivity
  obtain ⟨hlow, hhigh⟩ := h.leadingDecimal_spec hpos hn
  obtain ⟨top, htop⟩ := Int.eq_ofNat_of_zero_le hlow
  rw [htop] at hhigh
  obtain ⟨k, s, hhit, hexponent, hzeros⟩ := h.exists_hit (by omega : top < 17)
  rw [shortest, if_neg hne, htop]
  dsimp only
  rw [hhit, Option.getD_some]
  obtain ⟨_, hvalue⟩ := Scientific.trim_spec 20 s
  have hle := Scientific.le_exponent_trim 20 s
  generalize Scientific.trim 20 s = trimmed at hvalue hle
  obtain ⟨j, hj⟩ := Int.eq_ofNat_of_zero_le ((by omega : 0 ≤ s.exponent).trans hle)
  refine ⟨j, hj, ?_⟩
  have hsame : (withZeros trimmed.digits j : ℚ) = withZeros s.digits k := by
    rw [← Scientific.value_natCast, ← Scientific.value_natCast, ← hj, ← hexponent]
    exact hvalue
  rw [← hzeros]
  exact_mod_cast hsame

end Binary

end InfraGraph.Decimal
