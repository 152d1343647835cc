import MenuPages.Proofs.Number.Rounded

/-!
# Numbers are told apart by their values

A significand with its exponent is a normal form: numbers of one magnitude have the same bits but for
the sign. So a number is known by its sign and its exact magnitude, and a whole number of at most 53
bits is the one number of that value, but for the two zeros.
-/

namespace MenuPages.Binary64

variable {x y : Binary64}

/-! ## Normal form -/

/-- All of the significand's bits are used, unless the exponent is the least. -/
theorem exponent_eq_or_significand_ge (x : Binary64) :
    x.exponent = -1074 ∨ 2 ^ 52 ≤ x.significand := by
  rw [exponent, significand]
  split
  · next h => exact Or.inl (by rw [h]; rfl)
  · exact Or.inr (Nat.le_add_left _ _)

/-- Numbers of one magnitude have one exponent: the larger one would need a larger significand. -/
theorem exponent_le_of_magnitude_eq (h : x.magnitude = y.magnitude) : x.exponent ≤ y.exponent := by
  by_contra hlt
  have hbits : 2 ^ 52 ≤ x.significand := by
    rcases x.exponent_eq_or_significand_ge with hleast | hge
    · have := y.exponent_ge
      omega
    · exact hge
  have hstep : (2 : ℚ) ^ y.exponent * 2 ≤ 2 ^ x.exponent := by
    rw [← zpow_add_one₀ two_ne_zero]
    exact zpow_le_zpow_right₀ one_le_two (by omega)
  have hunit : (0 : ℚ) < 2 ^ y.exponent := by positivity
  have hlarge : (2 : ℚ) ^ 52 * (2 ^ y.exponent * 2) ≤ x.magnitude := by
    rw [magnitude]
    gcongr
    exact_mod_cast hbits
  have hsmall : y.magnitude < 2 ^ 53 * 2 ^ y.exponent := by
    rw [magnitude]
    gcongr
    exact_mod_cast y.significand_lt
  linarith

theorem exponent_eq_of_magnitude_eq (h : x.magnitude = y.magnitude) : x.exponent = y.exponent :=
  le_antisymm (exponent_le_of_magnitude_eq h) (exponent_le_of_magnitude_eq h.symm)

theorem significand_eq_of_magnitude_eq (h : x.magnitude = y.magnitude) :
    x.significand = y.significand := by
  have hexponent := exponent_eq_of_magnitude_eq h
  rw [magnitude, magnitude, hexponent] at h
  exact_mod_cast mul_right_cancel₀ (zpow_ne_zero _ two_ne_zero) h

/-! ## Bits -/

/-- The bits are those of the sign, the exponent and the fraction. -/
theorem toNat_bits_eq (x : Binary64) :
    x.bits.toNat = (if x.isNegative then 2 ^ 63 else 0) + x.exponentField * 2 ^ 52 +
      x.fractionField := by
  have hlt : x.bits.toNat < 2 ^ 64 := x.bits.toNat_lt
  rw [isNegative, exponentField, fractionField, Nat.shiftRight_eq_div_pow]
  split
  · next h =>
    have := of_decide_eq_true h
    omega
  · next h =>
    have := of_decide_eq_false (eq_false_of_ne_true h)
    omega

/-- A number is known by its sign and its magnitude. -/
theorem eq_of_magnitude_eq (hsign : x.isNegative = y.isNegative)
    (h : x.magnitude = y.magnitude) : x = y := by
  have hexponent := exponent_eq_of_magnitude_eq h
  have hsignificand := significand_eq_of_magnitude_eq h
  have hx : x.fractionField < 2 ^ 52 := Nat.mod_lt _ (by decide)
  have hy : y.fractionField < 2 ^ 52 := Nat.mod_lt _ (by decide)
  have hfields : x.exponentField = y.exponentField ∧ x.fractionField = y.fractionField := by
    rw [exponent, exponent] at hexponent
    rw [significand, significand] at hsignificand
    split at hsignificand <;> split at hsignificand <;> omega
  have hbits : x.bits.toNat = y.bits.toNat := by
    rw [toNat_bits_eq, toNat_bits_eq, hsign, hfields.1, hfields.2]
  cases x
  cases y
  congr 1
  exact UInt64.toNat_inj.mp hbits

theorem isNegative_ofRatio (negative : Bool) (num den : ℕ) :
    (ofRatio negative num den).isNegative = negative := by
  have hlt : magnitudeBits num den < 2 ^ 63 := by
    rw [magnitudeBits]
    exact lt_of_le_of_lt (min_le_left _ _) (by decide)
  rw [isNegative, ofRatio, toNat_bits negative hlt]
  cases negative
  · simpa using hlt
  · simp

/-! ## Whole numbers -/

/-- The number is the whole number `n` of at most 53 bits, and not -0. -/
structure IsInt (x : Binary64) (n : ℤ) : Prop where
  finite : x.isFinite
  toRat_eq : x.toRat = n
  natAbs_lt : n.natAbs < 2 ^ 53
  not_negative_zero : ¬(x.isZero ∧ x.isNegative)

namespace IsInt

variable {n : ℤ}

theorem magnitude_eq (h : x.IsInt n) : x.magnitude = n.natAbs := by
  rw [← abs_toRat, h.toRat_eq, ← Int.cast_abs, Int.abs_eq_natAbs]
  rfl

theorem isNegative_eq (h : x.IsInt n) : x.isNegative = decide (n < 0) := by
  have hsign := x.toRat_neg_iff
  rw [h.toRat_eq, Int.cast_lt_zero] at hsign
  rw [Bool.eq_iff_iff, decide_eq_true_eq, hsign, iff_self_and]
  intro hnegative hmagnitude
  apply h.not_negative_zero
  refine ⟨?_, hnegative⟩
  rw [isZero, h.finite, (magnitude_eq_zero_iff x).mp hmagnitude]
  rfl

/-- A whole number rounds to the number that it is. -/
theorem ofRatio_eq (h : x.IsInt n) : ofRatio (n < 0) n.natAbs 1 = x := by
  apply eq_of_magnitude_eq
  · rw [isNegative_ofRatio, h.isNegative_eq]
  · rw [magnitude_ofRatio_one _ h.natAbs_lt, h.magnitude_eq]

end IsInt

end MenuPages.Binary64
