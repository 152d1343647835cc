import MenuPages.Number.Binary64
import MenuPages.Proofs.Number.Nearest
import Mathlib.Algebra.Order.Field.Power
import Mathlib.Tactic.NormNum
import Mathlib.Tactic.Ring

/-!
# Exact values

A finite number is a rational number, `toRat`, and its distance from zero is its `magnitude`. What
is computed with the fraction of whole numbers that a number comes as is said of these two here: how
it is rounded, and if it is whole or lies halfway between two whole numbers.
-/

namespace MenuPages.Binary64

/-! ## Values -/

/-- The exact magnitude of a finite number. -/
def magnitude (x : Binary64) : ℚ := x.significand * 2 ^ x.exponent

/-- The exact value of a finite number. -/
def toRat (x : Binary64) : ℚ := if x.isNegative then -x.magnitude else x.magnitude

theorem significand_lt (x : Binary64) : x.significand < 2 ^ 53 := by
  have hfraction : x.fractionField < 0x10000000000000 := Nat.mod_lt _ (by decide)
  rw [significand]
  split <;> omega

theorem exponent_ge (x : Binary64) : -1074 ≤ x.exponent := by
  rw [exponent]
  omega

/-- A power of two, as a quotient of two powers that are whole numbers. -/
theorem two_zpow_eq (e : ℤ) : (2 : ℚ) ^ e = 2 ^ e.toNat / 2 ^ (-e).toNat := by
  rcases le_total 0 e with h | h
  · obtain ⟨n, rfl⟩ := Int.eq_ofNat_of_zero_le h
    simp
  · obtain ⟨n, hn⟩ := Int.eq_ofNat_of_zero_le (neg_nonneg.mpr h)
    obtain rfl : e = -n := by omega
    simp

theorem denominator_cast_pos (x : Binary64) : (0 : ℚ) < x.denominator := by
  exact_mod_cast x.denominator_pos

theorem magnitude_eq (x : Binary64) : x.magnitude = x.numerator / x.denominator := by
  rw [magnitude, numerator, denominator, two_zpow_eq, Nat.shiftLeft_eq, Nat.one_shiftLeft]
  push_cast
  ring

theorem magnitude_nonneg (x : Binary64) : 0 ≤ x.magnitude := by
  rw [magnitude]
  positivity

theorem abs_toRat (x : Binary64) : |x.toRat| = x.magnitude := by
  rw [toRat]
  split <;> simp [abs_of_nonneg x.magnitude_nonneg]

theorem toRat_eq_zero_iff (x : Binary64) : x.toRat = 0 ↔ x.magnitude = 0 := by
  rw [← abs_eq_zero, abs_toRat]

theorem toRat_neg_iff (x : Binary64) : x.toRat < 0 ↔ x.isNegative ∧ x.magnitude ≠ 0 := by
  have hnonneg := x.magnitude_nonneg
  rw [toRat]
  split
  · next h => simp [h, lt_iff_le_and_ne, hnonneg, eq_comm]
  · next h => simp [h, hnonneg]

theorem magnitude_eq_zero_iff (x : Binary64) : x.magnitude = 0 ↔ x.significand = 0 := by
  rw [magnitude, mul_eq_zero, Nat.cast_eq_zero]
  exact or_iff_left (zpow_ne_zero _ two_ne_zero)

/-- A number without a negative power of two is whole. -/
theorem exists_natCast_of_exponent {x : Binary64} (h : 0 ≤ x.exponent) :
    ∃ n : ℕ, x.magnitude = n := by
  refine ⟨x.significand * 2 ^ x.exponent.toNat, ?_⟩
  rw [magnitude, two_zpow_eq, show (-x.exponent).toNat = 0 by omega]
  push_cast
  ring

/-- From `2 ^ 53` on every number is whole. -/
theorem exists_natCast_of_le {x : Binary64} (h : 2 ^ 53 ≤ x.magnitude) :
    ∃ n : ℕ, x.magnitude = n := by
  apply exists_natCast_of_exponent
  by_contra hneg
  have hsignificand : (x.significand : ℚ) < 2 ^ 53 := by exact_mod_cast x.significand_lt
  have hpower : (2 : ℚ) ^ x.exponent ≤ 1 := zpow_le_one_of_nonpos₀ one_le_two (by omega)
  have hle : x.magnitude ≤ x.significand := by
    rw [magnitude]
    exact mul_le_of_le_one_right (by positivity) hpower
  linarith

/-! ## Numbers without their sign -/

section Abs

variable (x : Binary64)

theorem toNat_bits_abs : x.abs.bits.toNat = x.bits.toNat % 2 ^ 63 := by
  rw [abs, UInt64.toNat_and]
  exact Nat.and_two_pow_sub_one_eq_mod x.bits.toNat 63

theorem isNegative_abs : x.abs.isNegative = false := by
  rw [isNegative, toNat_bits_abs, decide_eq_false_iff_not]
  omega

theorem exponentField_abs : x.abs.exponentField = x.exponentField := by
  rw [exponentField, exponentField, toNat_bits_abs]
  omega

theorem fractionField_abs : x.abs.fractionField = x.fractionField := by
  rw [fractionField, fractionField, toNat_bits_abs]
  omega

theorem isFinite_abs : x.abs.isFinite = x.isFinite := by
  rw [isFinite, isFinite, exponentField_abs]

theorem magnitude_abs : x.abs.magnitude = x.magnitude := by
  rw [magnitude, magnitude, significand, significand, exponent, exponent, exponentField_abs,
    fractionField_abs]

theorem toRat_abs : x.abs.toRat = x.magnitude := by
  rw [toRat, isNegative_abs, magnitude_abs]
  rfl

end Abs

/-! ## What is asked of a number -/

theorem isNaN_eq_false {x : Binary64} (hfinite : x.isFinite) : x.isNaN = false := by
  rw [isNaN, beq_eq_false_iff_ne.mpr (bne_iff_ne.mp hfinite), Bool.false_and]

theorem isInfinite_eq_false {x : Binary64} (hfinite : x.isFinite) : x.isInfinite = false := by
  rw [isInfinite, beq_eq_false_iff_ne.mpr (bne_iff_ne.mp hfinite), Bool.false_and]

theorem nearest_round (tie : Tie) (x : Binary64) : Nearest tie x.magnitude (x.round tie) := by
  rw [magnitude_eq]
  exact nearest_roundDiv tie _ x.denominator_pos

theorem nearest_roundHundredths (tie : Tie) (x : Binary64) :
    Nearest tie (100 * x.magnitude) (x.roundHundredths tie) := by
  have h := nearest_roundDiv tie (x.numerator * 100) x.denominator_pos
  rwa [Nat.cast_mul, Nat.cast_ofNat, mul_div_right_comm, ← magnitude_eq, mul_comm] at h

theorem magnitude_eq_add (x : Binary64) :
    x.magnitude =
      ((x.numerator / x.denominator : ℕ) : ℚ) + (x.numerator % x.denominator : ℕ) / x.denominator := by
  rw [magnitude_eq]
  exact div_eq_add_mod_div x.numerator x.denominator_pos

theorem isWhole_iff (x : Binary64) : x.isWhole ↔ ∃ n : ℕ, x.magnitude = n := by
  have hpos := x.denominator_cast_pos
  rw [isWhole, beq_iff_eq]
  constructor
  · intro h
    exact ⟨x.numerator / x.denominator, by rw [magnitude_eq_add, h, Nat.cast_zero, zero_div, add_zero]⟩
  · rintro ⟨n, hn⟩
    rw [magnitude_eq, div_eq_iff hpos.ne'] at hn
    rw [show x.numerator = n * x.denominator by exact_mod_cast hn]
    exact Nat.mul_mod_left _ _

theorem isHalf_iff (x : Binary64) : x.isHalf ↔ ∃ n : ℕ, x.magnitude = n + 1 / 2 := by
  have hpos := x.denominator_cast_pos
  rw [isHalf, beq_iff_eq]
  constructor
  · intro h
    refine ⟨x.numerator / x.denominator, ?_⟩
    rw [magnitude_eq_add, add_right_inj, div_eq_div_iff hpos.ne' two_ne_zero]
    exact_mod_cast show x.numerator % x.denominator * 2 = 1 * x.denominator by omega
  · rintro ⟨n, hn⟩
    rw [magnitude_eq, div_eq_iff hpos.ne'] at hn
    have htwice : 2 * x.numerator = (2 * n + 1) * x.denominator := by
      have h : (2 * x.numerator : ℚ) = (2 * n + 1) * x.denominator := by linarith
      exact_mod_cast h
    have hmod : 2 * x.numerator % (2 * x.denominator) = x.denominator := by
      have hlt : x.denominator < 2 * x.denominator := by have := x.denominator_pos; omega
      rw [htwice, show (2 * n + 1) * x.denominator = x.denominator + 2 * x.denominator * n by ring,
        Nat.add_mul_mod_self_left, Nat.mod_eq_of_lt hlt]
    rwa [Nat.mul_mod_mul_left] at hmod

end MenuPages.Binary64
