import Mathlib
import InfraGraph.Proofs.Decimal.Whole
import InfraGraph.Proofs.Json.Float

/-!
# Floats with whole values

A whole number below `2 ^ 53` is written with all its digits, a point and a zero.  What is read is
ten times the number, as the digits behind the point count, and then a tenth of it.  Both are
rounded, so the number comes back only if little is lost in the first step.
-/

namespace InfraGraph

namespace Decimal

/-! ### Floats, signs and magnitudes -/

/-- Bits that are those of a finite float are kept. -/
theorem toBits_ofBits {bits : UInt64} (h : bits.toNat / Binary.leadingBit % 2048 ≠ 2047) :
    (Float.ofBits bits).toBits = bits := by
  have hvalid : Float.Model.Format.binary64.Valid bits.toBitVec := by
    refine ⟨fun hexponent => absurd ?_ h⟩
    have hnat := congrArg BitVec.toNat hexponent
    simpa [Float.Model.UnpackedFloat.unpackExponent, Nat.shiftRight_eq_div_pow,
      Binary.leadingBit] using hnat
  exact congrArg Float.toBits (Float.ofBits_toBits (Float.ofModel ⟨bits, hvalid⟩))

theorem Binary.IsCanonical.toBits_toFloat {b : Binary} (hb : b.IsCanonical) (negative : Bool) :
    (b.toFloat negative).toBits =
      if negative then b.toBits + 0x8000000000000000 else b.toBits := by
  refine toBits_ofBits ?_
  have hlt := hb.toNat_toBits_lt
  rw [hb.toNat_signed]
  unfold leadingBit at *
  omega

/-- A number is the magnitude of the floats that it gives. -/
theorem Binary.IsCanonical.magnitude_toFloat {b : Binary} (hb : b.IsCanonical)
    (negative : Bool) : magnitude (b.toFloat negative) = b := by
  rw [magnitude, hb.toBits_toFloat]
  exact hb.ofBits_eq (hb.toNat_signed negative)

/-- A finite float is given by its sign and its magnitude. -/
theorem toFloat_magnitude {x : Float} (h : isFinite x = true) :
    (magnitude x).toFloat (isNegative x) = x := by
  have hb := isCanonical_magnitude h
  rw [← Float.toBits_inj, hb.toBits_toFloat, ← UInt64.toNat_inj, hb.toNat_signed,
    toNat_toBits_magnitude h, isNegative]
  have hlt := x.toBits.toNat_lt
  unfold Binary.leadingBit
  by_cases hsign : 0x8000000000000000 ≤ x.toBits
  · rw [decide_eq_true hsign, Bool.toNat_true]
    have hle := UInt64.le_iff_toNat_le.1 hsign
    simp only [UInt64.reduceToNat] at hle
    omega
  · rw [decide_eq_false hsign, Bool.toNat_false]
    have hle := mt UInt64.le_iff_toNat_le.2 hsign
    simp only [UInt64.reduceToNat] at hle
    omega

/-- The float is a whole number, with a sign or without one. -/
structure IsWhole (x : Float) (n : ℕ) : Prop where
  finite : isFinite x = true
  value : (magnitude x).value = n

theorem IsWhole.unique {x : Float} {m n : ℕ} (hm : IsWhole x m) (hn : IsWhole x n) : m = n := by
  exact_mod_cast hm.value.symm.trans hn.value

end Decimal

namespace Json

open Decimal (Binary Scientific withZeros)

/-! ### Tenths -/

/-- The number ten. -/
def ten : Binary :=
  ⟨10 * 2 ^ 49, -49⟩

theorem ofNat?_ten : Binary.ofNat? 10 = some ten := by
  decide +kernel

/-- A number with one digit behind the point is a number and a tenth of it, both rounded. -/
theorem floatOfParts_neg_one {significand : ℕ} {c : Binary}
    (h : floatOfParts significand (-1) = some c) :
    ∃ b, Binary.ofNat? significand = some b ∧ b.div? ten = some c := by
  rw [floatOfParts, Option.bind_eq_some_iff] at h
  obtain ⟨b, hb, h⟩ := h
  obtain ⟨power, _, h⟩ := Option.bind_eq_some_iff.1 h
  rw [scale, if_pos (by decide)] at h
  have hpower : Binary.ofNat? (Nat.pow 10 (-1 : ℤ).natAbs) = some ten := ofNat?_ten
  rw [hpower, Option.bind_some, if_neg (by decide)] at h
  exact ⟨b, hb, h⟩

theorem exists_floatOfParts_tenfold {n : ℕ} (hn : n < 2 ^ 53) :
    ∃ c, floatOfParts (10 * n) (-1) = some c ∧ c.IsCanonical ∧
      (c.value = n ↔ Binary.IsTenfoldKept n) := by
  have hword : 10 * n ≤ maxWord := by
    rw [maxWord]
    omega
  obtain ⟨c, hc⟩ := exists_floatOfParts_of_neg hword (by decide : (-1 : ℤ) < 0)
  obtain ⟨b, hb, hdiv⟩ := floatOfParts_neg_one hc
  have hdenominator : 0 < b.denominator * ten.numerator :=
    Nat.mul_pos b.denominator_pos (by decide)
  refine ⟨c, hc, Binary.isCanonical_of_ofRatio? hdenominator hdiv, ?_⟩
  obtain ⟨m, hm, hkept⟩ := Binary.exists_nearest_tenfold hn
  have hvalue : (b.numerator : ℚ) / b.denominator = m := by
    rw [← b.value_eq, Binary.value_of_ofRatio? one_pos hb, hm]
  have hnumerator : b.numerator = m * b.denominator := by
    rw [div_eq_iff (by exact_mod_cast b.denominator_pos.ne')] at hvalue
    exact_mod_cast hvalue
  have hten : ten.numerator = 10 * ten.denominator := by decide +kernel
  have htenth : Binary.nearest (b.numerator * ten.denominator) (b.denominator * ten.numerator) =
      Binary.nearest m 10 := by
    refine Binary.nearest_eq_nearest hdenominator (by decide) ?_
    rw [hnumerator, hten]
    ring
  rw [Binary.value_of_ofRatio? hdenominator hdiv, htenth, hkept]

/-! ### Digits of whole numbers -/

theorem foldl_digits_replicate (n k : ℕ) :
    (List.replicate k '0').foldl (fun n c => 10 * n + (c.toNat - 48)) n = withZeros n k := by
  induction k generalizing n with
  | zero => exact (mul_one n).symm
  | succ k ih =>
      rw [List.replicate_succ, List.foldl_cons, ih, withZeros, withZeros, pow_succ]
      have hzero : '0'.toNat - 48 = 0 := rfl
      rw [hzero]
      ring

/-- A decimal without digits behind the point is read from ten times its value. -/
theorem magnitude?_parts_of_whole (negative : Bool) {s : Scientific} {k n : ℕ}
    (hexponent : s.exponent = k) (hvalue : withZeros s.digits k = n) (hn : n < 10 ^ 16) :
    (s.parts negative).magnitude? = floatOfParts (10 * n) (-1) := by
  have hword : 10 * n ≤ maxWord := by
    rw [maxWord]
    omega
  rcases Nat.eq_zero_or_pos s.digits with hnone | hpos
  · have hzero : n = 0 := by rw [← hvalue, hnone, withZeros, zero_mul]
    have hdigits : digitsValue (['0'] ++ ['0']) = 0 := rfl
    rw [Scientific.parts, if_pos hnone, hzero,
      NumberParts.magnitude?_eq (hdigits.trans_le (Nat.zero_le _))]
    rfl
  have hk : k < 16 := by
    rw [← Nat.pow_lt_pow_iff_right (by decide : 1 < 10)]
    exact (Nat.le_mul_of_pos_left _ hpos).trans_lt (hvalue.trans_lt hn)
  have hlength : (Decimal.digitsOf s.digits).length ≤ 16 - k := by
    refine (Nat.length_toDigits_le_iff (by decide) (by omega)).2 ?_
    refine Nat.lt_of_mul_lt_mul_right (a := 10 ^ k) ?_
    rw [← pow_add, Nat.sub_add_cancel hk.le]
    exact hvalue.trans_lt hn
  have hdigits : digitsValue (Decimal.digitsOf s.digits ++ List.replicate k '0' ++ ['0']) =
      10 * n := by
    rw [digitsValue_append, digitsValue_append, digitsValue_digitsOf, foldl_digits_replicate,
      hvalue]
    rfl
  have hparts : s.parts negative =
      ⟨negative, Decimal.digitsOf s.digits ++ List.replicate k '0', some ['0'], none⟩ := by
    rw [Scientific.parts, if_neg hpos.ne', hexponent, if_pos (by omega), Int.toNat_natCast]
  rw [hparts, NumberParts.magnitude?_eq (hdigits.trans_le hword)]
  exact congrArg (floatOfParts · (-1)) hdigits

/-! ### Reading back -/

/-- A whole number below `2 ^ 53` is read as the number that it is, or as one that differs. -/
theorem exists_float?_ofFloat_of_isWhole {x : Float} {n : ℕ} (h : Decimal.IsWhole x n)
    (hn : n < 2 ^ 53) : ∃ y, float? (ofFloat x) = some y ∧ (y = x ↔ Binary.IsTenfoldKept n) := by
  have hb := Decimal.isCanonical_magnitude h.finite
  obtain ⟨k, hexponent, hvalue⟩ := (hb.isWhole h.value hn).shortest_eq hn
  obtain ⟨c, hc, hcanonical, hkept⟩ := exists_floatOfParts_tenfold hn
  refine ⟨c.toFloat (Decimal.isNegative x), ?_, ?_⟩
  · have hsmall : n < 10 ^ 16 := hn.trans (by decide)
    rw [float?_ofFloat h.finite, NumberParts.float?, Scientific.negative_parts,
      magnitude?_parts_of_whole _ hexponent hvalue hsmall, hc, Option.map_some]
  · rw [← hkept]
    constructor
    · intro hsame
      rw [← hcanonical.magnitude_toFloat (Decimal.isNegative x), hsame, h.value]
    · intro hsame
      rw [hcanonical.eq_of_value_eq hb (hsame.trans h.value.symm),
        Decimal.toFloat_magnitude h.finite]

end Json

end InfraGraph
