import MenuPages.Number.Digits
import Mathlib.Data.List.Basic

/-!
# The digits of a number

A natural number is written without a needless zero in front, and what is written is read as that
number by the standard library's `Nat.ofDigitChars`.
-/

namespace MenuPages.Digits

theorem ofNat_of_lt {n : Nat} (h : n < 10) : ofNat n = [n.digitChar] := Nat.toDigits_of_lt_base h

/-- A number is read back from its digits. -/
theorem ofDigitChars_ofNat (n : Nat) : Nat.ofDigitChars 10 (ofNat n) 0 = n :=
  Nat.ofDigitChars_ten_toDigits

theorem eq_zero_of_ofNat {n : Nat} (h : ofNat n = ['0']) : n = 0 := by
  rw [← ofDigitChars_ofNat n, h]
  rfl

/-- Only zero has a zero in front. -/
theorem ofNat_eq_of_head? {n : Nat} (h : (ofNat n).head? = some '0') : ofNat n = ['0'] := by
  induction n using Nat.strongRecOn with
  | ind n ih =>
    rcases Nat.lt_or_ge n 10 with hlt | hge
    · rw [ofNat_of_lt hlt] at h ⊢
      rw [Option.some.inj h]
    · rw [ofNat, Nat.toDigits_of_base_le (by decide) hge,
        List.head?_append_of_ne_nil _ Nat.toDigits_ne_nil] at h
      have := eq_zero_of_ofNat (ih (n / 10) (by omega) h)
      omega

/-- A digit is read as the number it is written for. -/
theorem toNat_digitChar {n : Nat} (h : n < 10) : n.digitChar.toNat - '0'.toNat = n :=
  (by decide : ∀ n < 10, (Nat.digitChar n).toNat - '0'.toNat = n) n h

theorem isDigit_digitChar {n : Nat} (h : n < 10) : n.digitChar.isDigit :=
  (by decide : ∀ n < 10, (Nat.digitChar n).isDigit) n h

theorem isDigit_of_mem_ofNat {n : Nat} {c : Char} (h : c ∈ ofNat n) : c.isDigit :=
  Nat.isDigit_of_mem_toDigits (by decide) (by decide) h

/-- Reading further digits does not make a number smaller. -/
theorem le_ofDigitChars (s : Text) (n : Nat) : n ≤ Nat.ofDigitChars 10 s n := by
  induction s generalizing n with
  | nil => exact Nat.le_refl n
  | cons c s ih =>
    rw [Nat.ofDigitChars_cons]
    exact Nat.le_trans (by omega) (ih _)

end MenuPages.Digits
