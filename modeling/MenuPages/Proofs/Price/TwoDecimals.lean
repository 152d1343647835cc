import MenuPages.Price
import MenuPages.Proofs.Number.Digits
import MenuPages.Proofs.Number.Rounded

/-!
# Amounts with two decimals

What `Price.fixed` writes of a finite amount below `10 ^ 21` is the nearest hundredth, exactly: the
binary64 arithmetic on the way never leads to another one. The amounts that lie halfway between two
hundredths are multiples of an eighth, and the hundredfold of such an amount is a number of binary64
as long as it is below `2 ^ 52`. They go to the larger hundredth.

From `2 ^ 52` on a hundredfold is rounded to a whole number, halves are not seen any more
(`isBetween_iff`), and the amounts halfway between two hundredths go to the even one. So the text is
that of the larger hundredth except halfway above an even one at these magnitudes, and there it is
not (`fixed_shows_iff`).
-/

namespace MenuPages

/-! ## The text of hundredths -/

namespace Digits

/-- A text shows `n` hundredths: digits without a needless zero in front, a point and two more
digits, and all the digits are those of `n`. -/
def TwoDecimals (n : ℕ) (s : Text) : Prop :=
  ∃ (whole : Text) (a b : Char), s = whole ++ ['.', a, b] ∧ (∀ c ∈ whole ++ [a, b], c.isDigit) ∧
    whole ≠ [] ∧ (whole.head? = some '0' → whole = ['0']) ∧
      Nat.ofDigitChars 10 (whole ++ [a, b]) 0 = n

theorem TwoDecimals.unique {m n : ℕ} {s : Text} (hm : TwoDecimals m s) (hn : TwoDecimals n s) :
    m = n := by
  obtain ⟨whole, a, b, rfl, -, -, -, rfl⟩ := hm
  obtain ⟨whole', a', b', heq, -, -, -, rfl⟩ := hn
  obtain ⟨rfl, htail⟩ := List.append_inj' heq rfl
  obtain ⟨rfl, rfl⟩ : a = a' ∧ b = b' := by simpa using htail
  rfl

theorem twoDecimals_hundredths (n : ℕ) : TwoDecimals n (hundredths n) := by
  have htens : n % 100 / 10 < 10 := by omega
  have hones : n % 10 < 10 := by omega
  refine ⟨ofNat (n / 100), (n % 100 / 10).digitChar, (n % 10).digitChar, ?_, ?_,
    Nat.toDigits_ne_nil, ofNat_eq_of_head?, ?_⟩
  · rw [hundredths, ofNat_of_lt htens, ofNat_of_lt hones]
    rfl
  · intro c hc
    rcases List.mem_append.mp hc with hc | hc
    · exact isDigit_of_mem_ofNat hc
    · obtain rfl | rfl : c = _ ∨ c = _ := by simpa using hc
      · exact isDigit_digitChar htens
      · exact isDigit_digitChar hones
  · rw [Nat.ofDigitChars_append, ofDigitChars_ofNat, Nat.ofDigitChars_cons, toNat_digitChar htens,
      Nat.ofDigitChars_cons, toNat_digitChar hones, Nat.ofDigitChars_nil]
    omega

end Digits

namespace Price

/-! ## Halfway between two hundredths -/

section Between

variable {x : Binary64}

theorem magnitude_eight : (Binary64.ofNat 8).magnitude = 8 := Binary64.magnitude_ofNat (by norm_num)

theorem magnitude_hundred : (Binary64.ofNat 100).magnitude = 100 :=
  Binary64.magnitude_ofNat (by norm_num)

theorem roundsTo_scaled (hsmall : x.magnitude < 10 ^ 21) :
    Binary64.RoundsTo (100 * x.magnitude) (scaled x) := by
  have h := Binary64.roundsTo_mul x (.ofNat 100)
  rw [magnitude_hundred, mul_comm] at h
  exact h (by linarith)

/-- From `2 ^ 52` on the hundredfold of an amount has no fraction. -/
theorem magnitude_scaled_ne_half (hhigh : 2 ^ 52 ≤ 100 * x.magnitude) (b : ℕ) :
    (scaled x).magnitude ≠ b + 1 / 2 := by
  obtain ⟨m, hm⟩ : ∃ m : ℕ, (scaled x).magnitude = m := by
    refine x.exists_natCast_mul (.ofNat 100) ?_
    rwa [magnitude_hundred, mul_comm]
  intro hb
  have h : (2 * m : ℚ) = 2 * b + 1 := by linarith
  have : 2 * m = 2 * b + 1 := by exact_mod_cast h
  omega

/-- The eightfold of an amount is exact. -/
theorem magnitude_mul_eight (hsmall : x.magnitude < 10 ^ 21) :
    (x.mul (.ofNat 8)).magnitude = 8 * x.magnitude := by
  have h := Binary64.roundsTo_mul x (.ofNat 8)
  rw [magnitude_eight, mul_comm] at h
  refine (h (by linarith)).eq (j := x.exponent + 3) x.significand_lt ?_ ?_
  · linarith [x.exponent_ge]
  · rw [Binary64.magnitude, zpow_add₀ two_ne_zero]
    ring

/-- The hundredfold of a multiple of an eighth is exact, as long as it has no more than 52 bits before
the point. -/
theorem magnitude_scaled (hsmall : x.magnitude < 10 ^ 21) {n : ℕ} (hn : 8 * x.magnitude = n)
    (hlow : 100 * x.magnitude < 2 ^ 52) : (scaled x).magnitude = 100 * x.magnitude := by
  refine (roundsTo_scaled hsmall).eq (k := 25 * n) (j := -1) ?_ (by norm_num) ?_
  · have h : (25 * n : ℚ) < 2 ^ 53 := by linarith
    exact_mod_cast h
  · push_cast
    rw [zpow_neg_one]
    linarith

/-- What lies halfway between two hundredths is a multiple of an eighth: it is a fraction whose
denominator is a power of two, and 25 of its eighths are a whole number. -/
theorem exists_eighths {b : ℕ} (hb : 100 * x.magnitude = b + 1 / 2) :
    ∃ n : ℕ, 8 * x.magnitude = n := by
  have hpos := x.denominator_cast_pos
  rw [Binary64.magnitude_eq, mul_div_assoc', div_eq_iff hpos.ne'] at hb
  have hwhole : 25 * (8 * x.numerator) = x.denominator * (2 * b + 1) := by
    have h : (25 * (8 * x.numerator) : ℚ) = x.denominator * (2 * b + 1) := by linarith
    exact_mod_cast h
  have hcoprime : Nat.Coprime x.denominator 25 := by
    rw [Binary64.denominator, Nat.one_shiftLeft]
    exact Nat.Coprime.pow_left _ (by decide)
  obtain ⟨n, hn⟩ := hcoprime.dvd_of_dvd_mul_left (Dvd.intro _ hwhole.symm)
  refine ⟨n, ?_⟩
  rw [Binary64.magnitude_eq, mul_div_assoc', div_eq_iff hpos.ne', mul_comm (n : ℚ)]
  exact_mod_cast hn

/-- What lies halfway between two hundredths is found, if its hundredfold is below `2 ^ 52`, and
nothing else is. -/
theorem isBetween_iff (hsmall : x.magnitude < 10 ^ 21) :
    isBetween x ↔ 100 * x.magnitude < 2 ^ 52 ∧ ∃ b : ℕ, 100 * x.magnitude = b + 1 / 2 := by
  rw [isBetween, Bool.and_eq_true, Binary64.isWhole_iff, Binary64.isHalf_iff,
    magnitude_mul_eight hsmall]
  constructor
  · rintro ⟨⟨n, hn⟩, b, hb⟩
    have hlow : 100 * x.magnitude < 2 ^ 52 := by
      by_contra hhigh
      exact magnitude_scaled_ne_half (not_lt.mp hhigh) b hb
    exact ⟨hlow, b, by rw [← hb, magnitude_scaled hsmall hn hlow]⟩
  · rintro ⟨hlow, b, hb⟩
    obtain ⟨n, hn⟩ := exists_eighths hb
    exact ⟨⟨n, hn⟩, b, by rw [magnitude_scaled hsmall hn hlow, hb]⟩

end Between

/-! ## The nearest hundredth -/

section Hundredths

variable {x : Binary64}

/-- So many hundredths, as binary64 has them, are still nearest to themselves. -/
theorem roundHundredths_div {n : ℕ} (hn : n ≤ 2 ^ 52) :
    ((Binary64.ofNat n).div (.ofNat 100)).roundHundredths .toEven = n := by
  have hncast : (n : ℚ) ≤ 2 ^ 52 := by exact_mod_cast hn
  have hrounds := Binary64.roundsTo_div (.ofNat n) (.ofNat 100)
  rw [magnitude_hundred, Binary64.magnitude_ofNat (by omega)] at hrounds
  obtain ⟨e, hplace, herr⟩ := (hrounds (by norm_num) (by linarith)).exists_abs_sub_le
  generalize (Binary64.ofNat n).div (.ofNat 100) = y at herr ⊢
  -- A unit in the last place is at most a hundredth, and so less: it is a power of two.
  have he : e ≤ -7 := by
    rcases hplace.eq_or_le with h | hle
    · omega
    · by_contra hgt
      have hunit : (2 : ℚ) ^ (-6 : ℤ) ≤ 2 ^ e := zpow_le_zpow_right₀ one_le_two (by omega)
      norm_num at hunit
      linarith
  have hunit : (2 : ℚ) ^ e ≤ 2 ^ (-7 : ℤ) := zpow_le_zpow_right₀ one_le_two he
  have hclose : |100 * y.magnitude - n| < 1 / 2 := by
    rw [show 100 * y.magnitude - n = -(100 * (n / 100 - y.magnitude)) by ring, abs_neg, abs_mul,
      abs_of_pos (by norm_num)]
    norm_num at hunit
    linarith
  have hn : ((y.roundHundredths .toEven : ℕ) : ℤ) = n :=
    (y.nearest_roundHundredths .toEven).unique (.of_abs_sub_lt (by rwa [Int.cast_natCast]))
  exact_mod_cast hn

/-- The hundredths of an amount are the nearest ones. Halfway between two they are the larger ones
below `2 ^ 52`, and the even ones from there on. -/
theorem nearest_hundredths (hsmall : x.magnitude < 10 ^ 21) :
    Nearest (if 100 * x.magnitude < 2 ^ 52 then .up else .toEven) (100 * x.magnitude)
      (hundredths x) := by
  rw [hundredths]
  by_cases hbetween : isBetween x
  · rw [if_pos hbetween]
    obtain ⟨hlow, b, hb⟩ := (isBetween_iff hsmall).mp hbetween
    obtain ⟨m, hm⟩ := exists_eighths hb
    have hup := (scaled x).nearest_round .up
    rw [magnitude_scaled hsmall hm hlow] at hup
    have hn : (scaled x).round .up ≤ 2 ^ 52 := by
      have h := hup.le_of_le (k := 2 ^ 52) (by exact_mod_cast hlow.le)
      exact_mod_cast h
    rw [if_pos hlow, roundHundredths_div hn]
    exact hup
  · rw [if_neg hbetween]
    have heven := x.nearest_roundHundredths .toEven
    split
    · next hlow =>
      refine heven.of_ne_half fun b hb => hbetween ?_
      have hb0 : 0 ≤ b := by
        have h : (-1 : ℚ) < b := by linarith [x.magnitude_nonneg]
        have : -1 < b := by exact_mod_cast h
        omega
      obtain ⟨n, rfl⟩ := Int.eq_ofNat_of_zero_le hb0
      exact (isBetween_iff hsmall).mpr ⟨hlow, n, by rw [hb, Int.cast_natCast]⟩
    · exact heven

end Hundredths

/-! ## The text of an amount -/

theorem isHuge_iff (x : Binary64) : isHuge x ↔ 10 ^ 21 ≤ x.magnitude := by
  rw [isHuge, decide_eq_true_iff, Binary64.magnitude_eq, le_div_iff₀ x.denominator_cast_pos]
  exact_mod_cast Iff.rfl

/-- A finite amount below `10 ^ 21` is zero, or it is written with its digits. -/
theorem fixed_eq {x : Binary64} (hfinite : x.isFinite) (hsmall : |x.toRat| < 10 ^ 21) :
    fixed x = if x.toRat = 0 then "0.00".toList
      else if x.toRat < 0 then '-' :: Digits.hundredths (hundredths x)
      else Digits.hundredths (hundredths x) := by
  have hhuge : ¬ isHuge x := by
    rwa [isHuge_iff, not_le, ← Binary64.abs_toRat]
  have hzero : x.isZero ↔ x.toRat = 0 := by
    rw [Binary64.toRat_eq_zero_iff, Binary64.magnitude_eq_zero_iff, Binary64.isZero, hfinite]
    simp
  rw [fixed, Binary64.isNaN_eq_false hfinite, Binary64.isInfinite_eq_false hfinite]
  simp only [Bool.false_eq_true, if_false, hzero, hhuge]
  split
  · rfl
  · next hne =>
    rw [signed]
    simp only [Binary64.toRat_neg_iff, Ne, ← Binary64.toRat_eq_zero_iff, hne, not_false_eq_true,
      and_true]

/-- A text shows an amount: `0.00` for zero, and for any other one the nearest hundredth of its
magnitude, with a minus sign in front if it is negative. Halfway between two hundredths, it is the
one that `tie` says. -/
def Shows (tie : Tie) (q : ℚ) (s : Text) : Prop :=
  if q = 0 then s = "0.00".toList
  else ∃ (n : ℕ) (digits : Text), Nearest tie (100 * |q|) n ∧ Digits.TwoDecimals n digits ∧
    s = if q < 0 then '-' :: digits else digits

/-- What is written of an amount that is not zero shows it if its digits are those of the nearest
hundredth. -/
theorem shows_iff {tie : Tie} {q : ℚ} (hq : q ≠ 0) {n : ℕ} {digits : Text}
    (hdigits : Digits.TwoDecimals n digits) :
    Shows tie q (if q < 0 then '-' :: digits else digits) ↔ Nearest tie (100 * |q|) n := by
  rw [Shows, if_neg hq]
  constructor
  · rintro ⟨n', digits', hnear, hdigits', heq⟩
    have hsame : digits = digits' := by
      split at heq
      · exact (List.cons_inj_right _).mp heq
      · exact heq
    rwa [hdigits.unique (hsame ▸ hdigits')]
  · exact fun hnear => ⟨n, digits, hnear, hdigits, rfl⟩

/-- **Two decimals.** A finite amount below `10 ^ 21` is shown as the nearest hundredth: halfway
between two as the larger magnitude if it is below `2 ^ 52` hundredths, and as the even one from
there on. So the larger magnitude is what is shown in all cases but one, halfway above an even number
of at least `2 ^ 52` hundredths. -/
theorem fixed_shows_iff (x : Binary64) (hfinite : x.isFinite) (hsmall : |x.toRat| < 10 ^ 21) :
    Shows (if 100 * |x.toRat| < 2 ^ 52 then .up else .toEven) x.toRat (fixed x) ∧
      (Shows .up x.toRat (fixed x) ↔
        ¬ (2 ^ 52 ≤ 100 * |x.toRat| ∧ ∃ k : ℕ, 100 * |x.toRat| = 2 * k + 1 / 2)) := by
  rw [fixed_eq hfinite hsmall]
  by_cases hq : x.toRat = 0
  · simp [Shows, hq]
  have hnear := nearest_hundredths (x.abs_toRat ▸ hsmall)
  rw [← x.abs_toRat] at hnear
  rw [if_neg hq, shows_iff hq (Digits.twoDecimals_hundredths _),
    shows_iff hq (Digits.twoDecimals_hundredths _)]
  refine ⟨hnear, ?_⟩
  split at hnear
  · next hlow => exact iff_of_true hnear fun h => absurd h.1 (not_le.mpr hlow)
  · next hhigh =>
    rw [hnear.up_iff, not_and]
    constructor
    · rintro hodd - ⟨k, hk⟩
      exact hodd k (by push_cast; exact hk)
    · intro hodd k hk
      have hk0 : 0 ≤ k := by
        have h : (-1 : ℚ) < k := by push_cast at hk; linarith
        have : -1 < k := by exact_mod_cast h
        omega
      obtain ⟨n, rfl⟩ := Int.eq_ofNat_of_zero_le hk0
      exact hodd (not_lt.mp hhigh) ⟨n, by push_cast at hk; exact hk⟩

/-- An amount halfway between -1.12 and -1.13. -/
theorem fixed_shows_iff_between :
    let x : Binary64 := ⟨0xBFF2000000000000⟩
    x.isFinite ∧ |x.toRat| < 10 ^ 21 ∧
      Shows (if 100 * |x.toRat| < 2 ^ 52 then .up else .toEven) x.toRat (fixed x) ∧
        (Shows .up x.toRat (fixed x) ↔
          ¬ (2 ^ 52 ≤ 100 * |x.toRat| ∧ ∃ k : ℕ, 100 * |x.toRat| = 2 * k + 1 / 2)) := by
  intro x
  have hfinite : x.isFinite := by decide +kernel
  have hsmall : |x.toRat| < 10 ^ 21 := by decide +kernel
  exact ⟨hfinite, hsmall, fixed_shows_iff x hfinite hsmall⟩

/-- Half a cent above 45035996273705.12, which is 4503599627370512 hundredths and more than `2 ^ 52`. -/
theorem fixed_not_shows_up :
    let x : Binary64 := ⟨0x42C47AE147AE1490⟩
    x.isFinite ∧ x.toRat = 45035996273705 + 1 / 8 ∧ fixed x = "45035996273705.12".toList ∧
      ¬ Shows .up x.toRat (fixed x) := by
  intro x
  have hfinite : x.isFinite := by decide +kernel
  have hvalue : x.toRat = 45035996273705 + 1 / 8 := by decide +kernel
  have htext : fixed x = "45035996273705.12".toList := by decide +kernel
  refine ⟨hfinite, hvalue, htext, fun hshows => ?_⟩
  have hdigits : fixed x = if x.toRat < 0 then '-' :: Digits.hundredths 4503599627370512
      else Digits.hundredths 4503599627370512 := by decide +kernel
  have hne : x.toRat ≠ 0 := by rw [hvalue]; norm_num
  rw [hdigits, shows_iff hne (Digits.twoDecimals_hundredths _), hvalue] at hshows
  have hlt : (4503599627370513 : ℤ) < 4503599627370512 :=
    hshows.prefers (by norm_num) (by norm_num [abs_of_pos, abs_of_neg])
  omega

end Price

end MenuPages
