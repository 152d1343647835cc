import MenuPages.Proofs.Number.Magnitude

/-!
# Rounded results

Products and quotients are rounded, each to the nearest number there is. `RoundsTo v y` says so of
`y`: in units of the last place that there is for `v`, it is the nearest whole number of them.

Three things follow, and they are all that is used of it. What has at most 53 bits is not changed
(`RoundsTo.eq`). The error is at most half a unit in the last place (`RoundsTo.exists_abs_sub_le`).
And from `2 ^ 52` on every result is whole, also one that is too large for any number
(`exists_natCast_ofRatio`).
-/

namespace MenuPages.Binary64

/-! ## The last place -/

/-- The numbers near `v` are the multiples of `2 ^ e`: with 53 bits, or as small as there are. -/
structure Place (v : ℚ) (e : ℤ) : Prop where
  lt : v < 2 ^ 53 * 2 ^ e
  ge : -1074 ≤ e
  eq_or_le : e = -1074 ∨ 2 ^ 52 * 2 ^ e ≤ v

namespace Place

variable {v : ℚ} {e : ℤ} {m : ℕ}

/-- In units of the last place, what is rounded has 53 bits, or 53 zeros behind the first one. -/
theorem rounded_le (h : Place v e) (hnear : Nearest .toEven (v / 2 ^ e) m) : m ≤ 2 ^ 53 := by
  have hle := hnear.le_of_le (k := 2 ^ 53) (by
    rw [div_le_iff₀ (by positivity)]
    exact_mod_cast h.lt.le)
  exact_mod_cast hle

/-- In units of the last place, what is rounded has no fewer bits, unless it is small. -/
theorem eq_or_rounded_ge (h : Place v e) (hnear : Nearest .toEven (v / 2 ^ e) m) :
    e = -1074 ∨ 2 ^ 52 ≤ m := by
  refine h.eq_or_le.imp_right fun hle => ?_
  have hge := hnear.ge_of_ge (k := 2 ^ 52) (by
    rw [le_div_iff₀ (by positivity)]
    exact_mod_cast hle)
  exact_mod_cast hge

/-- From `2 ^ 52` on the last place is not behind the point. -/
theorem exponent_nonneg (h : Place v e) (hv : 2 ^ 52 ≤ v) : 0 ≤ e := by
  by_contra hneg
  have hhalf : (2 : ℚ) ^ e ≤ 2 ^ (-1 : ℤ) := zpow_le_zpow_right₀ one_le_two (by omega)
  rw [zpow_neg_one] at hhalf
  linarith [h.lt]

/-- The last place of a number of at most 200 bits is not high. -/
theorem exponent_lt (h : Place v e) (hsmall : v < 2 ^ 200) : e < 148 := by
  rcases h.eq_or_le with he | hle
  · omega
  · have hlt : (2 : ℚ) ^ (52 : ℤ) * 2 ^ e < 2 ^ (200 : ℤ) := by exact_mod_cast hle.trans_lt hsmall
    rw [← zpow_add₀ two_ne_zero, zpow_lt_zpow_iff_right₀ one_lt_two] at hlt
    omega

end Place

/-- The binary logarithms of a fraction tell its quotient up to a factor of two. -/
theorem log2_bounds {num den : ℕ} (hnum : num ≠ 0) (hden : den ≠ 0) {g : ℤ}
    (hg : g = (num.log2 : ℤ) - den.log2 - 52) :
    2 ^ 51 * 2 ^ g < (num / den : ℚ) ∧ (num / den : ℚ) < 2 ^ 53 * 2 ^ g := by
  have hunit : (2 : ℚ) ^ g = 2 ^ num.log2 / 2 ^ den.log2 / 2 ^ 52 := by
    rw [hg, zpow_sub₀ two_ne_zero, zpow_sub₀ two_ne_zero, zpow_natCast, zpow_natCast]
    rfl
  have hnumLow : (2 : ℚ) ^ num.log2 ≤ num := by exact_mod_cast Nat.log2_self_le hnum
  have hnumHigh : (num : ℚ) < 2 ^ num.log2 * 2 := by
    exact_mod_cast pow_succ 2 num.log2 ▸ Nat.lt_log2_self (n := num)
  have hdenLow : (2 : ℚ) ^ den.log2 ≤ den := by exact_mod_cast Nat.log2_self_le hden
  have hdenHigh : (den : ℚ) < 2 ^ den.log2 * 2 := by
    exact_mod_cast pow_succ 2 den.log2 ▸ Nat.lt_log2_self (n := den)
  have hpos : (0 : ℚ) < den := by positivity
  constructor
  · calc (2 : ℚ) ^ 51 * 2 ^ g = 2 ^ num.log2 / (2 ^ den.log2 * 2) := by rw [hunit]; field_simp
      _ < 2 ^ num.log2 / den := by gcongr
      _ ≤ num / den := by gcongr
  · calc (num / den : ℚ) ≤ num / 2 ^ den.log2 := by gcongr
      _ < 2 ^ num.log2 * 2 / 2 ^ den.log2 := by gcongr
      _ = 2 ^ 53 * 2 ^ g := by rw [hunit]; field_simp

/-- The comparison of whole numbers in `roundingExponent` is one of quotients. -/
theorem low_iff (num : ℕ) {den : ℕ} (hden : 0 < den) (g : ℤ) :
    num <<< (-g).toNat < den <<< g.toNat <<< 52 ↔ (num / den : ℚ) < 2 ^ 52 * 2 ^ g := by
  have hpos : (0 : ℚ) < den := by exact_mod_cast hden
  rw [two_zpow_eq, ← mul_div_assoc, div_lt_div_iff₀ hpos (by positivity), ← Nat.cast_lt (α := ℚ)]
  simp only [Nat.shiftLeft_eq]
  push_cast
  rw [mul_comm (2 ^ 52 * 2 ^ g.toNat : ℚ), mul_comm (2 ^ 52 : ℚ), mul_assoc (den : ℚ)]
  norm_num

/-- The exponent that is rounded at is that of the last place. -/
theorem place_roundingExponent (num : ℕ) {den : ℕ} (hden : 0 < den) :
    Place (num / den : ℚ) (roundingExponent num den) := by
  rw [roundingExponent]
  split
  · next h => exact ⟨by rw [h]; simp, le_rfl, .inl rfl⟩
  · next hnum =>
    generalize hg : (num.log2 : ℤ) - den.log2 - 52 = g
    obtain ⟨hlow, hhigh⟩ := log2_bounds hnum hden.ne' hg.symm
    -- One of the two exponents next to the guess has the quotient between `2 ^ 52` and `2 ^ 53`.
    obtain ⟨e, he, hle, hlt⟩ : ∃ e : ℤ, (if num <<< (-g).toNat < den <<< g.toNat <<< 52
        then g - 1 else g) = e ∧ 2 ^ 52 * 2 ^ e ≤ (num / den : ℚ) ∧
          (num / den : ℚ) < 2 ^ 53 * 2 ^ e := by
      split
      · next h =>
        rw [low_iff num hden] at h
        have hhalf : (2 : ℚ) ^ (g - 1) = 2 ^ g / 2 := zpow_sub_one₀ two_ne_zero g
        exact ⟨_, rfl, by rw [hhalf]; linarith, by rw [hhalf]; linarith⟩
      · next h => exact ⟨_, rfl, not_lt.mp (mt (low_iff num hden g).mpr h), hhigh⟩
    rw [he]
    rcases le_total e (-1074) with h | h
    · rw [max_eq_right h]
      have hunit : (2 : ℚ) ^ e ≤ 2 ^ (-1074 : ℤ) := zpow_le_zpow_right₀ one_le_two h
      exact ⟨by linarith, le_rfl, .inl rfl⟩
    · rw [max_eq_left h]
      exact ⟨hlt, h, .inr hle⟩

/-! ## Bits -/

section Bits

variable (negative : Bool) {b : ℕ}

/-- A number put together of its sign and of the bits behind it. -/
theorem toNat_bits (hb : b < 2 ^ 63) :
    (UInt64.ofNat ((if negative then 0x8000000000000000 else 0) + b)).toNat =
      (if negative then 0x8000000000000000 else 0) + b := by
  rw [UInt64.toNat_ofNat', Nat.mod_eq_of_lt]
  split <;> omega

theorem exponentField_bits (hb : b < 2 ^ 63) :
    exponentField ⟨UInt64.ofNat ((if negative then 0x8000000000000000 else 0) + b)⟩ = b / 2 ^ 52 := by
  rw [exponentField, toNat_bits negative hb]
  split <;> omega

theorem fractionField_bits (hb : b < 2 ^ 63) :
    fractionField ⟨UInt64.ofNat ((if negative then 0x8000000000000000 else 0) + b)⟩ = b % 2 ^ 52 := by
  rw [fractionField, toNat_bits negative hb]
  split <;> omega

/-- A significand is read back with the exponent it was put with, also if it carries into that. -/
theorem magnitude_bits {place m : ℕ} (hplace : place ≤ 2044) (hm : m ≤ 2 ^ 53)
    (hlow : place = 0 ∨ 2 ^ 52 ≤ m) :
    magnitude ⟨UInt64.ofNat ((if negative then 0x8000000000000000 else 0) + (place <<< 52 + m))⟩ =
      m * 2 ^ ((place : ℤ) - 1074) := by
  rw [Nat.shiftLeft_eq]
  have hb : place * 2 ^ 52 + m < 2 ^ 63 := by omega
  rw [magnitude, significand, exponent, exponentField_bits negative hb, fractionField_bits negative hb]
  rcases Nat.lt_or_ge m (2 ^ 52) with hsmall | hnormal
  · obtain rfl : place = 0 := by omega
    rw [Nat.zero_mul, Nat.zero_add, Nat.div_eq_of_lt hsmall, Nat.mod_eq_of_lt hsmall, if_pos rfl]
    rfl
  rcases Nat.lt_or_ge m (2 ^ 53) with hcarry | hcarry
  · have hexp : (place * 2 ^ 52 + m) / 2 ^ 52 = place + 1 := by omega
    have hfrac : (place * 2 ^ 52 + m) % 2 ^ 52 + 0x10000000000000 = m := by omega
    rw [hexp, if_neg (Nat.succ_ne_zero place), hfrac, max_eq_left (by omega)]
    congr 2
    omega
  · obtain rfl : m = 2 ^ 53 := by omega
    have hexp : (place * 2 ^ 52 + 2 ^ 53) / 2 ^ 52 = place + 2 := by omega
    have hfrac : (place * 2 ^ 52 + 2 ^ 53) % 2 ^ 52 = 0 := by omega
    rw [hexp, if_neg (by omega), hfrac, max_eq_left (by omega),
      show ((place + 2 : ℕ) : ℤ) - 1075 = (place : ℤ) - 1074 + 1 by omega, zpow_add_one₀ two_ne_zero]
    push_cast
    ring

end Bits

/-! ## Rounding -/

/-- The number nearest to `v` is `y`, or its negative. -/
def RoundsTo (v : ℚ) (y : Binary64) : Prop :=
  ∃ (e : ℤ) (m : ℕ), Place v e ∧ Nearest .toEven (v / 2 ^ e) m ∧ y.magnitude = m * 2 ^ e

/-- A quotient in units of `2 ^ e`, rounded. -/
theorem nearest_units (num : ℕ) {den : ℕ} (hden : 0 < den) (e : ℤ) :
    Nearest .toEven (num / den / 2 ^ e)
      (roundDiv .toEven (num <<< (-e).toNat) (den <<< e.toNat)) := by
  have hunits : 0 < den <<< e.toNat := by
    rw [Nat.shiftLeft_eq]
    exact Nat.mul_pos hden (Nat.two_pow_pos _)
  have hnear := nearest_roundDiv .toEven (num <<< (-e).toNat) hunits
  have hquot : ((num <<< (-e).toNat : ℕ) : ℚ) / (den <<< e.toNat : ℕ) = num / den / 2 ^ e := by
    rw [two_zpow_eq, Nat.shiftLeft_eq, Nat.shiftLeft_eq]
    push_cast
    field_simp
  rwa [hquot] at hnear

/-- Far below the largest number, the result of rounding is the nearest number. -/
theorem roundsTo_ofRatio (negative : Bool) (num : ℕ) {den : ℕ} (hden : 0 < den)
    (hsmall : (num / den : ℚ) < 2 ^ 200) :
    RoundsTo (num / den) (ofRatio negative num den) := by
  have hplace := place_roundingExponent num hden
  rw [ofRatio, magnitudeBits]
  generalize roundingExponent num den = e at hplace ⊢
  have hnear := nearest_units num hden e
  generalize roundDiv .toEven (num <<< (-e).toNat) (den <<< e.toNat) = m at hnear ⊢
  refine ⟨e, m, hplace, hnear, ?_⟩
  have hm := hplace.rounded_le hnear
  have hlow := hplace.eq_or_rounded_ge hnear
  have hhigh := hplace.exponent_lt hsmall
  have hge := hplace.ge
  have hbits : (e + 1074).toNat <<< 52 + m ≤ infinityBits := by
    rw [infinityBits]
    omega
  rw [min_eq_right hbits, magnitude_bits negative (by omega) hm (by omega)]
  congr 2
  omega

/-- From `2 ^ 52` on every result is whole, and so is what comes of one that is too large. -/
theorem exists_natCast_ofRatio (negative : Bool) (num : ℕ) {den : ℕ} (hden : 0 < den)
    (hv : 2 ^ 52 ≤ (num / den : ℚ)) : ∃ n : ℕ, (ofRatio negative num den).magnitude = n := by
  have hplace := place_roundingExponent num hden
  apply exists_natCast_of_exponent
  rw [ofRatio, magnitudeBits]
  generalize roundingExponent num den = e at hplace ⊢
  have he := hplace.exponent_nonneg hv
  have hm := (hplace.eq_or_rounded_ge (nearest_units num hden e)).resolve_left (by omega)
  generalize roundDiv .toEven (num <<< (-e).toNat) (den <<< e.toNat) = m at hm ⊢
  have hbits : 1075 * 2 ^ 52 ≤ min infinityBits ((e + 1074).toNat <<< 52 + m) := by
    rw [Nat.shiftLeft_eq, infinityBits]
    omega
  have hlt : min infinityBits ((e + 1074).toNat <<< 52 + m) < 2 ^ 63 :=
    lt_of_le_of_lt (min_le_left _ _) (by decide)
  rw [exponent, exponentField_bits negative hlt]
  omega

namespace RoundsTo

variable {v : ℚ} {x y z : Binary64}

/-- What has at most 53 bits is not changed. -/
theorem eq (h : RoundsTo v y) {k : ℕ} {j : ℤ} (hk : k < 2 ^ 53) (hj : -1074 ≤ j)
    (hv : v = k * 2 ^ j) : y.magnitude = v := by
  obtain ⟨e, m, hplace, hnear, hmag⟩ := h
  have hunit : (0 : ℚ) < 2 ^ e := by positivity
  have hej : e ≤ j := by
    rcases hplace.eq_or_le with he | hle
    · omega
    · by_contra hlt
      have hstep : (2 : ℚ) ^ j * 2 ≤ 2 ^ e := by
        rw [← zpow_add_one₀ two_ne_zero]
        exact zpow_le_zpow_right₀ one_le_two (by omega)
      have hkj : (k : ℚ) * 2 ^ j < 2 ^ 53 * 2 ^ j := by
        gcongr
        exact_mod_cast hk
      linarith
  have hwhole : v / 2 ^ e = ((k * 2 ^ (j - e).toNat : ℕ) : ℤ) := by
    rw [hv, div_eq_iff hunit.ne', show j = ((j - e).toNat : ℤ) + e by omega,
      zpow_add₀ two_ne_zero, zpow_natCast]
    push_cast
    rw [mul_assoc]
    congr 3
    omega
  rw [hwhole] at hnear
  rw [hmag, show (m : ℚ) = v / 2 ^ e by rw [hwhole]; exact_mod_cast hnear.eq_of_intCast,
    div_mul_cancel₀ v hunit.ne']

/-- The error is at most half a unit in the last place. -/
theorem exists_abs_sub_le (h : RoundsTo v y) :
    ∃ e : ℤ, Place v e ∧ |v - y.magnitude| ≤ 2 ^ e / 2 := by
  obtain ⟨e, m, hplace, hnear, hmag⟩ := h
  have hunit : (0 : ℚ) < 2 ^ e := by positivity
  refine ⟨e, hplace, ?_⟩
  calc |v - y.magnitude| = |v / 2 ^ e - m| * 2 ^ e := by
        rw [hmag, ← abs_of_pos hunit, ← abs_mul, abs_of_pos hunit, sub_mul,
          div_mul_cancel₀ v hunit.ne']
    _ ≤ 1 / 2 * 2 ^ e := by
        gcongr
        exact_mod_cast hnear.abs_sub_le_half
    _ = 2 ^ e / 2 := by ring

end RoundsTo

/-! ## Arithmetic -/

section Arithmetic

variable (x y : Binary64)

theorem magnitude_mul_magnitude : x.magnitude * y.magnitude =
    ((x.numerator * y.numerator : ℕ) : ℚ) / (x.denominator * y.denominator : ℕ) := by
  rw [magnitude_eq, magnitude_eq, div_mul_div_comm]
  push_cast
  rfl

theorem roundsTo_mul (hsmall : x.magnitude * y.magnitude < 2 ^ 200) :
    RoundsTo (x.magnitude * y.magnitude) (x.mul y) := by
  rw [magnitude_mul_magnitude] at hsmall ⊢
  exact roundsTo_ofRatio _ _ (Nat.mul_pos x.denominator_pos y.denominator_pos) hsmall

/-- From `2 ^ 52` on a product is whole, also one that is too large. -/
theorem exists_natCast_mul (hv : 2 ^ 52 ≤ x.magnitude * y.magnitude) :
    ∃ n : ℕ, (x.mul y).magnitude = n := by
  rw [magnitude_mul_magnitude] at hv
  exact exists_natCast_ofRatio _ _ (Nat.mul_pos x.denominator_pos y.denominator_pos) hv

theorem roundsTo_div (hy : y.magnitude ≠ 0) (hsmall : x.magnitude / y.magnitude < 2 ^ 200) :
    RoundsTo (x.magnitude / y.magnitude) (x.div y) := by
  have hnum : 0 < y.numerator := by
    refine Nat.pos_of_ne_zero fun h => hy ?_
    rw [magnitude_eq, h, Nat.cast_zero, zero_div]
  have hquot : x.magnitude / y.magnitude =
      ((x.numerator * y.denominator : ℕ) : ℚ) / (x.denominator * y.numerator : ℕ) := by
    rw [magnitude_eq, magnitude_eq, div_div_div_eq]
    push_cast
    rfl
  rw [hquot] at hsmall ⊢
  exact roundsTo_ofRatio _ _ (Nat.mul_pos x.denominator_pos hnum) hsmall

/-- Whole numbers of at most 53 bits are numbers. -/
theorem magnitude_ofRatio_one (negative : Bool) {n : ℕ} (hn : n < 2 ^ 53) :
    (ofRatio negative n 1).magnitude = n := by
  have hquot : (n : ℚ) / (1 : ℕ) = n := by rw [Nat.cast_one, div_one]
  have hsmall : (n : ℚ) < 2 ^ 200 := by
    have h : (n : ℚ) < 2 ^ 53 := by exact_mod_cast hn
    exact h.trans_le (pow_le_pow_right₀ one_le_two (by norm_num))
  have h := roundsTo_ofRatio negative n one_pos (by rwa [hquot])
  rw [hquot] at h
  exact h.eq (j := 0) hn (by norm_num) (by simp)

theorem magnitude_ofNat {n : ℕ} (hn : n < 2 ^ 53) : (ofNat n).magnitude = n :=
  magnitude_ofRatio_one false hn

end Arithmetic

end MenuPages.Binary64
