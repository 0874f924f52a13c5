import InfraGraph.Proofs.Decimal.Shortest

/-!
# Magnitudes and bits

A finite float is a sign and a magnitude.  Magnitudes have one form each: the significand has all
its digits unless the exponent is the least one.  So a float is given by its sign and the value of
its magnitude.
-/

namespace InfraGraph.Decimal

namespace Binary

/-- The number has the form that the bits of a float give it. -/
structure IsCanonical (b : Binary) : Prop extends b.Fits where
  full : -1074 < b.exponent → leadingBit ≤ b.significand

theorem isCanonical_zero : zero.IsCanonical where
  significand := by decide
  least := by decide
  largest := by decide
  full := by decide

/-- A number with a larger exponent is larger. -/
theorem IsCanonical.value_lt_value {a b : Binary} (ha : a.IsCanonical) (hb : b.IsCanonical)
    (h : a.exponent < b.exponent) : a.value < b.value := by
  have hsignificand : (a.significand : ℚ) < 2 * leadingBit := by exact_mod_cast ha.significand
  have hfull : (leadingBit : ℚ) ≤ b.significand := by
    exact_mod_cast hb.full (ha.least.trans_lt h)
  calc a.value < 2 * leadingBit * 2 ^ a.exponent := by
        rw [value]
        gcongr
    _ = leadingBit * 2 ^ (a.exponent + 1) := by rw [zpow_add₀ two_ne_zero, zpow_one]; ring
    _ ≤ b.value := by
        rw [value]
        gcongr
        · exact one_le_two
        · exact h

/-- A canonical number is given by its value. -/
theorem IsCanonical.eq_of_value_eq {a b : Binary} (ha : a.IsCanonical) (hb : b.IsCanonical)
    (h : a.value = b.value) : a = b := by
  have hexponent : a.exponent = b.exponent := by
    by_contra hne
    rcases lt_or_gt_of_ne hne with hlt | hgt
    · exact (ha.value_lt_value hb hlt).ne h
    · exact (hb.value_lt_value ha hgt).ne' h
  have hsignificand : a.significand = b.significand := by
    rw [value, value, hexponent] at h
    exact_mod_cast mul_right_cancel₀ (by positivity) h
  cases a
  cases b
  cases hexponent
  cases hsignificand
  rfl

/-- Results of rounding are canonical. -/
theorem isCanonical_of_ofRatio? {n d : ℕ} (hd : 0 < d) {b : Binary} (h : ofRatio? n d = some b) :
    b.IsCanonical := by
  rcases Nat.eq_zero_or_pos n with rfl | hn
  · obtain rfl := Option.some.inj h
    exact isCanonical_zero
  rw [ofRatio?_eq_rounded hn, Option.ite_none_right_eq_some, Option.some.injEq] at h
  obtain ⟨hlargest, rfl⟩ := h
  have hunits := units_le hn hd
  have hfull := leadingBit_le_units hn hd
  have hleast : -1074 ≤ lastPlace n d := le_max_right _ _
  rw [rounded] at hlargest ⊢
  split at hlargest <;> rename_i hcarry
  · rw [if_pos hcarry]
    exact { significand := by simp [leadingBit], least := by dsimp only; omega,
            largest := hlargest, full := fun _ => le_rfl }
  · rw [if_neg hcarry]
    exact { significand := lt_of_le_of_ne hunits hcarry, least := hleast, largest := hlargest,
            full := hfull }

/-! ### Bits -/

section Bits

variable {b : Binary}

/-- The bits are the significand without its leading one, behind the exponent. -/
theorem IsCanonical.toNat_toBits (hb : b.IsCanonical) : b.toBits.toNat =
    if b.significand < leadingBit then b.significand
    else (b.exponent + 1075).toNat * leadingBit + (b.significand - leadingBit) := by
  have hsignificand := hb.significand
  have hlargest := hb.largest
  rw [toBits]
  unfold leadingBit at *
  split
  · rw [UInt64.toNat_ofNat_of_lt' (by rw [UInt64.size]; omega)]
  · rw [UInt64.toNat_ofNat_of_lt' (by rw [UInt64.size]; omega)]

theorem IsCanonical.toNat_toBits_lt (hb : b.IsCanonical) :
    b.toBits.toNat < 2047 * leadingBit := by
  have hsignificand := hb.significand
  have hlargest := hb.largest
  rw [hb.toNat_toBits]
  unfold leadingBit at *
  split <;> omega

/-- The number is given back by its bits, with a sign in front of them or not. -/
theorem IsCanonical.ofBits_eq (hb : b.IsCanonical) {bits : UInt64} {sign : ℕ}
    (h : bits.toNat = sign * (2048 * leadingBit) + b.toBits.toNat) : ofBits bits = b := by
  rw [hb.toNat_toBits] at h
  obtain ⟨⟨hsignificand, hleast, hlargest⟩, hfull⟩ := hb
  rw [ofBits]
  rcases lt_or_ge b.significand leadingBit with hsmall | hlarge
  · have hexponent : b.exponent = -1074 := by
      by_contra hne
      exact absurd (hfull (by omega)) (not_le.2 hsmall)
    rw [if_pos hsmall] at h
    have hbiased : bits.toNat / leadingBit % 2048 = 0 := by
      unfold leadingBit at *
      omega
    have hfraction : bits.toNat % leadingBit = b.significand := by
      unfold leadingBit at *
      omega
    rw [if_pos hbiased, hfraction, ← hexponent]
  · rw [if_neg (not_lt.2 hlarge)] at h
    have hbiased : bits.toNat / leadingBit % 2048 = (b.exponent + 1075).toNat := by
      unfold leadingBit at *
      omega
    have hfraction : leadingBit + bits.toNat % leadingBit = b.significand := by
      unfold leadingBit at *
      omega
    have hexponent : (((b.exponent + 1075).toNat : ℕ) : ℤ) - 1075 = b.exponent := by omega
    rw [if_neg (by omega), hfraction, hbiased, hexponent]

theorem IsCanonical.toNat_signed (hb : b.IsCanonical) (negative : Bool) :
    (if negative then b.toBits + 0x8000000000000000 else b.toBits).toNat =
      negative.toNat * (2048 * leadingBit) + b.toBits.toNat := by
  have hlt := hb.toNat_toBits_lt
  unfold leadingBit at *
  cases negative with
  | false => simp
  | true =>
      rw [if_pos rfl, UInt64.toNat_add]
      simp only [Bool.toNat_true, UInt64.reduceToNat]
      omega

end Bits

end Binary

/-- The magnitude of a finite float is canonical. -/
theorem isCanonical_magnitude {x : Float} (h : isFinite x = true) : (magnitude x).IsCanonical := by
  rw [isFinite, decide_eq_true_eq] at h
  rw [magnitude, Binary.ofBits]
  have hfraction : x.toBits.toNat % Binary.leadingBit < Binary.leadingBit :=
    Nat.mod_lt _ (by decide)
  have hbiased := Nat.mod_lt (x.toBits.toNat / Binary.leadingBit) (by decide : 0 < 2048)
  split
  · exact { significand := by dsimp only; omega, least := le_rfl, largest := by simp,
            full := fun h => absurd h (lt_irrefl _) }
  · exact { significand := by dsimp only; omega, least := by dsimp only; omega,
            largest := by dsimp only; omega, full := fun _ => Nat.le_add_right _ _ }

/-- The bits of a magnitude are those of the float but for the sign. -/
theorem toNat_toBits_magnitude {x : Float} (h : isFinite x = true) :
    (magnitude x).toBits.toNat = x.toBits.toNat % (2048 * Binary.leadingBit) := by
  have hb := isCanonical_magnitude h
  rw [hb.toNat_toBits, magnitude, Binary.ofBits]
  unfold Binary.leadingBit
  split <;> split <;> dsimp only at * <;> omega

end InfraGraph.Decimal
