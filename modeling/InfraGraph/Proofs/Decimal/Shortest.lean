import InfraGraph.Decimal.Shortest
import InfraGraph.Proofs.Decimal.Nearest

/-!
# How large the shortest decimal is

The digits of the shortest decimal are searched for in grids that have seventeen of them at most,
and the decimal lies among the numbers that round to the given one.  So it isn't larger than the
shortest decimal of the largest number.
-/

namespace InfraGraph.Decimal

theorem ten_ne_zero : (10 : ℚ) ≠ 0 := by
  norm_num

/-- The decimal as a rational number. -/
def Scientific.value (s : Scientific) : ℚ :=
  s.digits * 10 ^ s.exponent

/-- A number with zeros behind its digits. -/
def withZeros (digits k : ℕ) : ℕ :=
  digits * 10 ^ k

theorem withZeros_le_withZeros {digits digits' k k' : ℕ} (hdigits : digits ≤ digits')
    (hk : k ≤ k') : withZeros digits k ≤ withZeros digits' k' :=
  Nat.mul_le_mul hdigits (Nat.pow_le_pow_right (by decide) hk)

theorem Scientific.value_natCast (digits k : ℕ) :
    value ⟨digits, (k : ℤ)⟩ = withZeros digits k := by
  rw [value, zpow_natCast, withZeros]
  push_cast
  rfl

/-- Leaving out zeros at the end doesn't change the number. -/
theorem Scientific.trim_spec (fuel : ℕ) (s : Scientific) :
    (trim fuel s).digits ≤ s.digits ∧ (trim fuel s).value = s.value := by
  induction fuel generalizing s with
  | zero => exact ⟨le_rfl, rfl⟩
  | succ fuel ih =>
      rw [trim]
      split
      · rename_i h
        obtain ⟨hdigits, hvalue⟩ := ih ⟨s.digits / 10, s.exponent + 1⟩
        refine ⟨hdigits.trans (Nat.div_le_self _ _), hvalue.trans ?_⟩
        have hten : (s.digits : ℚ) = (s.digits / 10 : ℕ) * 10 := by
          exact_mod_cast (Nat.div_mul_cancel (Nat.dvd_of_mod_eq_zero h.2)).symm
        rw [value, value, hten, zpow_add₀ ten_ne_zero, zpow_one]
        ring
      · exact ⟨le_rfl, rfl⟩

/-! ### The leading digit -/

/-- A power of two is up to a power of ten if it is for bounds on the logarithm. -/
theorem two_zpow_le_ten_zpow {n down up : ℕ} (hn : n ≠ 0) (hdown : 10 ^ down ≤ 2 ^ n)
    (hup : 2 ^ n ≤ 10 ^ up) {e d : ℤ} (hneg : e < 0 → down * e ≤ n * d)
    (hpos : 0 ≤ e → up * e ≤ n * d) : (2 : ℚ) ^ e ≤ 10 ^ d := by
  have hdown' : ((10 : ℚ) ^ down) ≤ 2 ^ n := by exact_mod_cast hdown
  have hup' : (2 : ℚ) ^ n ≤ 10 ^ up := by exact_mod_cast hup
  rw [← pow_le_pow_iff_left₀ (by positivity) (by positivity) hn]
  have hleft : ((2 : ℚ) ^ e) ^ n = (2 ^ n) ^ e := by
    rw [← zpow_natCast, ← zpow_mul, mul_comm, zpow_mul, zpow_natCast]
  have hright : ((10 : ℚ) ^ d) ^ n = 10 ^ (n * d) := by
    rw [← zpow_natCast, ← zpow_mul, mul_comm]
  rw [hleft, hright]
  rcases lt_or_ge e 0 with he | he
  · calc ((2 : ℚ) ^ n) ^ e = ((2 ^ n) ^ (-e))⁻¹ := by rw [zpow_neg, inv_inv]
      _ ≤ ((10 ^ down) ^ (-e))⁻¹ :=
          inv_anti₀ (by positivity) (zpow_le_zpow_left₀ (by omega) (by positivity) hdown')
      _ = 10 ^ (down * e) := by rw [zpow_neg, inv_inv, ← zpow_natCast, ← zpow_mul]
      _ ≤ 10 ^ (n * d) := zpow_le_zpow_right₀ (by norm_num) (hneg he)
  · calc ((2 : ℚ) ^ n) ^ e ≤ (10 ^ up) ^ e := zpow_le_zpow_left₀ he (by positivity) hup'
      _ = 10 ^ (up * e) := by rw [← zpow_natCast, ← zpow_mul]
      _ ≤ 10 ^ (n * d) := zpow_le_zpow_right₀ (by norm_num) (hpos he)

/-- The logarithm of two is `0.30102` and a bit. -/
theorem two_zpow_le_guess {e : ℤ} (hlow : -1100 ≤ e) :
    (2 : ℚ) ^ (e + 1) ≤ 10 ^ (e * 30103 / 100000 + 3) := by
  have hdown : 10 ^ 30102 ≤ 2 ^ 100000 := by decide +kernel
  have hup : 2 ^ 100000 ≤ 10 ^ 30103 := by decide +kernel
  refine two_zpow_le_ten_zpow (by decide) hdown hup (fun _ => ?_) fun _ => ?_
  · push_cast
    omega
  · push_cast
    omega

theorem reached_iff {n d : ℕ} (hd : 0 < d) (e : ℤ) :
    d * Nat.pow 10 e.toNat ≤ n * Nat.pow 10 (-e).toNat ↔ (10 : ℚ) ^ e ≤ n / d := by
  rw [zpow_eq_div ten_ne_zero, div_le_div_iff₀ (by positivity) (by exact_mod_cast hd),
    mul_comm d]
  exact_mod_cast Iff.rfl

/-- No digit stands above the leading one. -/
theorem lt_ten_zpow_leadingDecimal {n d : ℕ} (hd : 0 < d)
    (hlow : -1100 ≤ (n.log2 : ℤ) - d.log2) : (n : ℚ) / d < 10 ^ (leadingDecimal n d + 1) := by
  have hguess := (Binary.lt_two_zpow_log2 n hd).trans_le (two_zpow_le_guess hlow)
  unfold leadingDecimal
  simp only [decide_eq_true_eq, reached_iff hd]
  split_ifs with h2 h1 h0
  · rwa [add_assoc]
  · rw [add_assoc]
    exact not_le.1 h2
  · exact not_le.1 h1
  · rw [sub_add_cancel]
    exact not_le.1 h0

/-! ### Points of a grid -/

section GridPoint

variable {b : Binary} {place : ℤ} {s : Scientific}

/-- A quarter of the unit of a number, counted in points of a grid, is the quotient of this and
`gridDown`. -/
def gridUp (b : Binary) (place : ℤ) : ℕ :=
  Nat.pow 10 (-place).toNat <<< (b.exponent - 2).toNat

def gridDown (b : Binary) (place : ℤ) : ℕ :=
  Nat.pow 10 place.toNat <<< (-(b.exponent - 2)).toNat

theorem gridDown_pos : 0 < gridDown b place :=
  Binary.shiftLeft_pos (Nat.pow_pos (by decide)) _

theorem gridUp_div_gridDown :
    (gridUp b place : ℚ) / gridDown b place = 2 ^ (b.exponent - 2) / 10 ^ place := by
  rw [zpow_eq_div two_ne_zero, zpow_eq_div ten_ne_zero, gridUp, gridDown, Nat.shiftLeft_eq,
    Nat.shiftLeft_eq]
  simp only [Nat.pow_eq]
  push_cast
  rw [div_div_div_eq]
  ring

/-- The last point of a grid up to a number. -/
def gridBelow (b : Binary) (place : ℤ) : ℕ :=
  4 * b.significand * gridUp b place / gridDown b place

/-- The point of a grid that is nearest to a number. -/
def gridNearer (b : Binary) (place : ℤ) : ℕ :=
  let rest := 4 * b.significand * gridUp b place % gridDown b place
  if 2 * rest < gridDown b place ∨ (2 * rest = gridDown b place ∧ gridBelow b place % 2 = 0) then
    gridBelow b place
  else gridBelow b place + 1

/-- The point on the other side of a number. -/
def gridFarther (b : Binary) (place : ℤ) : ℕ :=
  if gridNearer b place = gridBelow b place then gridBelow b place + 1 else gridBelow b place

/-- Whether a point of a grid rounds to a number. -/
def IsInside (b : Binary) (place : ℤ) (point : ℕ) : Bool :=
  if (Rounding.of b).closed then
    (Rounding.of b).low * gridUp b place ≤ point * gridDown b place &&
      point * gridDown b place ≤ (Rounding.of b).high * gridUp b place
  else
    (Rounding.of b).low * gridUp b place < point * gridDown b place &&
      point * gridDown b place < (Rounding.of b).high * gridUp b place

theorem gridPoint?_eq (b : Binary) (place : ℤ) : gridPoint? b place =
    if IsInside b place (gridNearer b place) then some ⟨gridNearer b place, place⟩
    else if IsInside b place (gridFarther b place) then some ⟨gridFarther b place, place⟩
    else none :=
  rfl

theorem gridNearer_le : gridNearer b place ≤ gridBelow b place + 1 := by
  unfold gridNearer
  dsimp only
  split <;> omega

theorem gridFarther_le : gridFarther b place ≤ gridBelow b place + 1 := by
  unfold gridFarther
  split <;> omega

theorem le_of_isInside {point : ℕ} (h : IsInside b place point = true) :
    point * gridDown b place ≤ (4 * b.significand + 2) * gridUp b place := by
  have hhigh : (Rounding.of b).high = 4 * b.significand + 2 := rfl
  rw [IsInside, hhigh] at h
  split at h <;> simp only [Bool.and_eq_true, decide_eq_true_eq] at h <;> omega

/-- A point next to the number is chosen, which rounds to the number. -/
theorem gridPoint?_spec (h : gridPoint? b place = some s) :
    s.exponent = place ∧ s.digits ≤ gridBelow b place + 1 ∧
      s.digits * gridDown b place ≤ (4 * b.significand + 2) * gridUp b place := by
  rw [gridPoint?_eq] at h
  split at h
  · rename_i hinside
    obtain rfl := Option.some.inj h
    exact ⟨rfl, gridNearer_le, le_of_isInside hinside⟩
  · split at h
    · rename_i hinside
      obtain rfl := Option.some.inj h
      exact ⟨rfl, gridFarther_le, le_of_isInside hinside⟩
    · cases h

theorem value_le_of_gridPoint? (h : gridPoint? b place = some s) :
    s.value ≤ (4 * b.significand + 2) * 2 ^ (b.exponent - 2) := by
  obtain ⟨rfl, _, hinside⟩ := gridPoint?_spec h
  have hdown : (0 : ℚ) < gridDown b s.exponent := by exact_mod_cast gridDown_pos
  have hpow : (0 : ℚ) < 10 ^ s.exponent := by positivity
  have hpoint : (s.digits : ℚ) ≤
      (4 * b.significand + 2) * (2 ^ (b.exponent - 2) / 10 ^ s.exponent) := by
    rw [← gridUp_div_gridDown, ← mul_div_assoc, le_div_iff₀ hdown]
    exact_mod_cast hinside
  rw [Scientific.value, ← le_div_iff₀ hpow, mul_div_assoc]
  exact hpoint

/-- A grid has no more points up to a number than the digits of the number allow. -/
theorem gridBelow_lt {k : ℕ} (h : b.value < 10 ^ (place + k)) : gridBelow b place < 10 ^ k := by
  have hdown : (0 : ℚ) < gridDown b place := by exact_mod_cast gridDown_pos
  have hpow : (0 : ℚ) < 10 ^ place := by positivity
  have hquarters : b.value = 4 * b.significand * 2 ^ (b.exponent - 2) := by
    rw [Binary.value, zpow_sub₀ two_ne_zero]
    norm_num
    ring
  have hbelow : (4 * b.significand * gridUp b place : ℚ) < 10 ^ k * gridDown b place := by
    rw [← div_lt_iff₀ hdown, mul_div_assoc, gridUp_div_gridDown, ← mul_div_assoc, ← hquarters,
      div_lt_iff₀ hpow, mul_comm, ← zpow_natCast, ← zpow_add₀ ten_ne_zero]
    exact h
  rw [gridBelow, Nat.div_lt_iff_lt_mul gridDown_pos]
  exact_mod_cast hbelow

end GridPoint

/-! ### Numbers of double precision -/

/-- The number is one of double precision. -/
structure Binary.Fits (b : Binary) : Prop where
  significand : b.significand < 2 * leadingBit
  least : -1074 ≤ b.exponent
  largest : b.exponent ≤ 971

/-- The shortest decimal of the largest number. -/
def largestDecimal : ℕ :=
  withZeros 17976931348623157 292

theorem value_largest : Scientific.value ⟨17976931348623157, 292⟩ = largestDecimal :=
  Scientific.value_natCast _ _

theorem shortest_largest :
    shortest ⟨2 * Binary.leadingBit - 1, 971⟩ = ⟨17976931348623157, 292⟩ := by
  decide +kernel

theorem upperEnd_le {e : ℤ} (he : e ≤ 969) :
    ((8 * Binary.leadingBit - 6 : ℕ) : ℚ) * 2 ^ e ≤ largestDecimal := by
  have hend : (8 * Binary.leadingBit - 6) * 2 ^ 969 ≤ largestDecimal := by decide +kernel
  calc ((8 * Binary.leadingBit - 6 : ℕ) : ℚ) * 2 ^ e
      ≤ (8 * Binary.leadingBit - 6 : ℕ) * 2 ^ ((969 : ℕ) : ℤ) := by
        gcongr
        · exact one_le_two
        · exact he
    _ ≤ largestDecimal := by
        rw [zpow_natCast]
        exact_mod_cast hend

section Fits

variable {b : Binary}

/-- What rounds to a number below the largest one isn't above the decimal of that one. -/
theorem Binary.Fits.upperEnd_le (hb : b.Fits) (hne : b ≠ ⟨2 * leadingBit - 1, 971⟩) :
    (4 * b.significand + 2) * (2 : ℚ) ^ (b.exponent - 2) ≤ largestDecimal := by
  have hsignificand := hb.significand
  have hlargest := hb.largest
  rcases hlargest.lt_or_eq with hlt | heq
  · have hexponent : b.exponent - 1 ≤ 969 := by omega
    refine le_trans ?_ (Decimal.upperEnd_le hexponent)
    have hdouble : 4 * b.significand + 2 ≤ (8 * leadingBit - 6) * 2 := by
      rw [leadingBit] at hsignificand ⊢
      omega
    have hdouble' : (4 * b.significand + 2 : ℚ) ≤ (8 * leadingBit - 6 : ℕ) * 2 := by
      exact_mod_cast hdouble
    calc (4 * b.significand + 2) * (2 : ℚ) ^ (b.exponent - 2)
        ≤ (8 * leadingBit - 6 : ℕ) * 2 * 2 ^ (b.exponent - 2) := by gcongr
      _ = (8 * leadingBit - 6 : ℕ) * 2 ^ (b.exponent - 1) := by
        rw [mul_assoc, ← zpow_one_add₀ two_ne_zero]
        congr 2
        ring
  · have hexponent : b.exponent - 2 ≤ 969 := by omega
    refine le_trans ?_ (Decimal.upperEnd_le hexponent)
    have hless : b.significand ≠ 2 * leadingBit - 1 := by
      rintro hmost
      exact hne (by rw [← hmost, ← heq])
    have hend : 4 * b.significand + 2 ≤ 8 * leadingBit - 6 := by
      rw [leadingBit] at hsignificand hless ⊢
      omega
    gcongr
    exact_mod_cast hend

theorem Binary.Fits.le_log2_sub_log2 (hb : b.Fits) :
    -1100 ≤ (b.numerator.log2 : ℤ) - b.denominator.log2 := by
  have hleast := hb.least
  have hdenominator : b.denominator.log2 = (-b.exponent).toNat := by
    rw [denominator, Nat.one_shiftLeft, Nat.log2_two_pow]
  omega

theorem Binary.Fits.significand_le (hb : b.Fits) : b.significand ≤ 17976931348623157 :=
  hb.significand.le.trans (by decide)

/-- The digits are seventeen at most, or a power of ten. -/
theorem Binary.Fits.shortest_spec (hb : b.Fits) :
    (shortest b).digits ≤ 10 ^ 17 ∧ (shortest b).value ≤ largestDecimal := by
  by_cases hlargest : b = ⟨2 * leadingBit - 1, 971⟩
  · rw [hlargest, shortest_largest]
    exact ⟨by decide, value_largest.le⟩
  rw [shortest]
  split
  · exact ⟨Nat.zero_le _, by simp [Scientific.value]⟩
  have hleading := lt_ten_zpow_leadingDecimal b.denominator_pos hb.le_log2_sub_log2
  rw [← value_eq] at hleading
  dsimp only
  generalize hhit : (List.range 17).findSome? _ = hit
  obtain ⟨hdigits, hvalue⟩ := Scientific.trim_spec 20 (hit.getD ⟨b.significand, 0⟩)
  rw [hvalue]
  cases hit with
  | none =>
      refine ⟨hdigits.trans (hb.significand_le.trans (by decide)), ?_⟩
      have hsmall : withZeros b.significand 0 ≤ largestDecimal :=
        withZeros_le_withZeros hb.significand_le (Nat.zero_le 292)
      exact (Scientific.value_natCast b.significand 0).trans_le (by exact_mod_cast hsmall)
  | some s =>
      obtain ⟨k, hk, hgrid⟩ := List.exists_of_findSome?_eq_some hhit
      have hk' : k + 1 ≤ 17 := List.mem_range.1 hk
      refine ⟨hdigits.trans ?_, (value_le_of_gridPoint? hgrid).trans (hb.upperEnd_le hlargest)⟩
      have hbelow : gridBelow b (leadingDecimal b.numerator b.denominator - k) < 10 ^ (k + 1) := by
        refine gridBelow_lt (hleading.trans_eq ?_)
        congr 1
        push_cast
        ring
      exact ((gridPoint?_spec hgrid).2.1.trans hbelow).trans (Nat.pow_le_pow_right (by decide) hk')

end Fits

end InfraGraph.Decimal
