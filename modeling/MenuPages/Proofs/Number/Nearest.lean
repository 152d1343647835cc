import MenuPages.Number.Rounding
import Mathlib.Algebra.Order.Field.Basic
import Mathlib.Data.Rat.Cast.Order
import Mathlib.Tactic.FieldSimp
import Mathlib.Tactic.Linarith
import Mathlib.Tactic.Positivity
import Mathlib.Tactic.Ring

/-!
# The nearest whole number

`Nearest tie v n` says of a rational number what `roundDiv` computes of a quotient: that no whole
number is nearer to `v` than `n`, and that `n` is the one to take if another is as near. There is
one such number and no other (`Nearest.unique`), so a rounding is known by this alone.

Rounding to even and rounding up differ in a number that lies halfway between two whole numbers,
and in no other (`Nearest.of_ne_half`).
-/

namespace MenuPages

/-- Of two whole numbers that are equally near, the one to take is the first. -/
def Tie.Prefers : Tie → ℤ → ℤ → Prop
  | .toEven, n, _ => Even n
  | .up, n, k => k < n

/-- The whole number nearest to `v` is `n`, and of two that are equally near the one to take. -/
structure Nearest (tie : Tie) (v : ℚ) (n : ℤ) : Prop where
  le (k : ℤ) : |v - n| ≤ |v - k|
  prefers {k : ℤ} (hk : k ≠ n) (heq : |v - k| = |v - n|) : tie.Prefers n k

/-- Two whole numbers that are not the same are at least one apart. -/
theorem one_le_abs_sub_add {m n : ℤ} (h : m ≠ n) (v : ℚ) : 1 ≤ |v - m| + |v - n| := by
  have hapart : (1 : ℚ) ≤ |(m : ℚ) - n| := by
    exact_mod_cast Int.one_le_abs (sub_ne_zero.mpr h)
  have htriangle : |(m : ℚ) - n| ≤ |(m : ℚ) - v| + |v - n| := abs_sub_le _ _ _
  rw [abs_sub_comm (m : ℚ) v] at htriangle
  linarith

/-- A number that is half a unit away lies halfway between two whole numbers. -/
theorem eq_add_half_of_abs_sub {v : ℚ} {n : ℤ} (h : |v - n| = 1 / 2) :
    v = n + 1 / 2 ∨ v = ((n - 1 : ℤ) : ℚ) + 1 / 2 := by
  push_cast
  rcases abs_eq (by norm_num) |>.mp h with h | h
  · exact .inl (by linarith)
  · exact .inr (by linarith)

namespace Nearest

variable {tie tie' : Tie} {v : ℚ} {m n : ℤ}

/-- A whole number at most half a unit away is a nearest one. -/
theorem of_abs_sub_le (h : |v - n| ≤ 1 / 2)
    (hprefers : ∀ k : ℤ, k ≠ n → |v - k| = 1 / 2 → tie.Prefers n k) : Nearest tie v n where
  le k := by
    rcases eq_or_ne k n with rfl | hk
    · exact le_rfl
    · linarith [one_le_abs_sub_add hk v]
  prefers {k} hk heq := hprefers k hk (by linarith [one_le_abs_sub_add hk v])

/-- A whole number less than half a unit away is the nearest one. -/
theorem of_abs_sub_lt (h : |v - n| < 1 / 2) : Nearest tie v n :=
  .of_abs_sub_le h.le fun k hk heq => by linarith [one_le_abs_sub_add hk v]

/-- Halfway between two whole numbers, both are nearest, and one of them is the one to take. -/
theorem of_half {b : ℤ} (hn : n = b ∨ n = b + 1)
    (hprefers : ∀ k : ℤ, k ≠ n → k = b ∨ k = b + 1 → tie.Prefers n k) :
    Nearest tie (b + 1 / 2) n := by
  refine .of_abs_sub_le ?_ fun k hk heq => hprefers k hk ?_
  · rcases hn with rfl | rfl
    · rw [add_sub_cancel_left, abs_of_pos (by norm_num)]
    · rw [Int.cast_add, abs_le]
      constructor <;> push_cast <;> linarith
  · rcases eq_add_half_of_abs_sub heq with h | h
    · exact .inl (by exact_mod_cast show (k : ℚ) = b by linarith)
    · refine .inr ?_
      push_cast at h
      exact_mod_cast show (k : ℚ) = b + 1 by linarith

theorem half_up (b : ℤ) : Nearest .up (b + 1 / 2) (b + 1) :=
  .of_half (.inr rfl) fun k hk hor => show k < b + 1 by omega

theorem half_of_even {b : ℤ} (h : Even b) : Nearest .toEven (b + 1 / 2) b :=
  .of_half (.inl rfl) fun _ _ _ => h

theorem half_of_odd {b : ℤ} (h : Odd b) : Nearest .toEven (b + 1 / 2) (b + 1) :=
  .of_half (.inr rfl) fun _ _ _ => h.add_one

/-- The nearest whole number is at most half a unit away. -/
theorem abs_sub_le_half (h : Nearest tie v n) : |v - n| ≤ 1 / 2 := by
  -- From further away than that, the next whole number on the same side is nearer.
  rw [abs_le]
  constructor
  · by_contra hlt
    have hnext : |v - (n - 1 : ℤ)| < |v - n| := by
      rw [abs_of_neg (by linarith : v - n < 0), abs_lt]
      constructor <;> push_cast <;> linarith
    exact hnext.not_ge (h.le (n - 1))
  · by_contra hgt
    have hnext : |v - (n + 1 : ℤ)| < |v - n| := by
      rw [abs_of_pos (by linarith : 0 < v - n), abs_lt]
      constructor <;> push_cast <;> linarith
    exact hnext.not_ge (h.le (n + 1))

/-- There is no other nearest whole number. -/
theorem unique (hm : Nearest tie v m) (hn : Nearest tie v n) : m = n := by
  by_contra hne
  have heq : |v - m| = |v - n| := le_antisymm (hm.le n) (hn.le m)
  have hmn := hm.prefers (Ne.symm hne) heq.symm
  have hnm := hn.prefers hne heq
  cases tie with
  | up => exact lt_asymm hmn hnm
  | toEven =>
    have hclose : |(m : ℚ) - n| ≤ 1 := by
      have htriangle : |(m : ℚ) - n| ≤ |(m : ℚ) - v| + |v - n| := abs_sub_le _ _ _
      rw [abs_sub_comm (m : ℚ) v] at htriangle
      linarith [hm.abs_sub_le_half, hn.abs_sub_le_half]
    have hclose : |m - n| ≤ 1 := by exact_mod_cast hclose
    have hbound := abs_le.mp hclose
    obtain ⟨a, ha⟩ : Even m := hmn
    obtain ⟨b, hb⟩ : Even n := hnm
    omega

/-- A number that is not halfway between two whole numbers rounds to even as it rounds up. -/
theorem of_ne_half (h : Nearest tie v n) (hv : ∀ b : ℤ, v ≠ b + 1 / 2) : Nearest tie' v n := by
  refine .of_abs_sub_lt (lt_of_le_of_ne h.abs_sub_le_half fun heq => ?_)
  rcases eq_add_half_of_abs_sub heq with h | h
  · exact hv _ h
  · exact hv _ h

/-- What is rounded to even is rounded up, unless it lies halfway above an even number. -/
theorem up_iff (h : Nearest .toEven v n) : Nearest .up v n ↔ ∀ k : ℤ, v ≠ (2 * k : ℤ) + 1 / 2 := by
  constructor
  · rintro hup k rfl
    have heven : 2 * k = n := (half_of_even (even_two_mul k)).unique h
    have hnext : n = 2 * k + 1 := hup.unique (half_up _)
    omega
  · intro hv
    by_cases hhalf : ∃ b : ℤ, v = b + 1 / 2
    · obtain ⟨b, rfl⟩ := hhalf
      obtain ⟨k, rfl | rfl⟩ := b.even_or_odd'
      · exact absurd rfl (hv k)
      · rw [h.unique (half_of_odd ⟨k, rfl⟩)]
        exact half_up _
    · exact h.of_ne_half fun b hb => hhalf ⟨b, hb⟩

/-- Below a whole number, the nearest one is not above it. -/
theorem le_of_le (h : Nearest tie v n) {k : ℤ} (hv : v ≤ k) : n ≤ k := by
  have hle := h.le k
  rw [abs_of_nonpos (sub_nonpos.mpr hv)] at hle
  exact_mod_cast show (n : ℚ) ≤ k by linarith [neg_le_abs (v - n)]

/-- Above a whole number, the nearest one is not below it. -/
theorem ge_of_ge (h : Nearest tie v n) {k : ℤ} (hv : (k : ℚ) ≤ v) : k ≤ n := by
  have hle := h.le k
  rw [abs_of_nonneg (sub_nonneg.mpr hv)] at hle
  exact_mod_cast show (k : ℚ) ≤ n by linarith [le_abs_self (v - n)]

/-- A whole number is the nearest one to itself. -/
theorem eq_of_intCast {k : ℤ} (h : Nearest tie k n) : n = k :=
  h.unique (.of_abs_sub_lt (by simp))

end Nearest

/-- A quotient is a whole number and a remainder. -/
theorem div_eq_add_mod_div (num : ℕ) {den : ℕ} (hden : 0 < den) :
    (num / den : ℚ) = ((num / den : ℕ) : ℚ) + (num % den : ℕ) / den := by
  have hpos : (0 : ℚ) < den := by exact_mod_cast hden
  field_simp
  exact_mod_cast (Nat.div_add_mod num den).symm

/-- A rounded quotient is the nearest whole number to the quotient. -/
theorem nearest_roundDiv (tie : Tie) (num : ℕ) {den : ℕ} (hden : 0 < den) :
    Nearest tie (num / den : ℚ) (roundDiv tie num den) := by
  have hpos : (0 : ℚ) < den := by exact_mod_cast hden
  have hrest : ((num % den : ℕ) : ℚ) / den < 1 := by
    rw [div_lt_one hpos]
    exact_mod_cast Nat.mod_lt num hden
  have hnonneg : 0 ≤ ((num % den : ℕ) : ℚ) / den := by positivity
  simp only [div_eq_add_mod_div num hden, roundDiv]
  generalize num / den = below, num % den = rest at hrest hnonneg ⊢
  split
  · next hlt =>
    have hhalf : (rest : ℚ) / den < 1 / 2 := by
      rw [div_lt_div_iff₀ hpos two_pos]
      exact_mod_cast show rest * 2 < 1 * den by omega
    refine .of_abs_sub_lt ?_
    rw [Int.cast_natCast, add_sub_cancel_left, abs_of_nonneg hnonneg]
    exact hhalf
  split
  · next hgt =>
    have hhalf : 1 / 2 < (rest : ℚ) / den := by
      rw [div_lt_div_iff₀ two_pos hpos]
      exact_mod_cast show 1 * den < rest * 2 by omega
    refine .of_abs_sub_lt ?_
    rw [abs_lt]
    constructor <;> push_cast <;> linarith
  · have hhalf : (rest : ℚ) / den = 1 / 2 := by
      rw [div_eq_div_iff hpos.ne' two_ne_zero]
      exact_mod_cast show rest * 2 = 1 * den by omega
    rw [hhalf]
    cases tie with
    | up => exact_mod_cast Nearest.half_up below
    | toEven =>
      rcases Nat.mod_two_eq_zero_or_one below with h | h
      · rw [h]
        exact_mod_cast Nearest.half_of_even (b := below) (by exact_mod_cast Nat.even_iff.mpr h)
      · rw [h]
        exact_mod_cast Nearest.half_of_odd (b := below) (by exact_mod_cast Nat.odd_iff.mpr h)

end MenuPages
