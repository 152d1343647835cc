import MenuPages.Text.Basic

/-!
# Decimal digits
-/

namespace MenuPages.Digits

/-- A natural number in decimal digits, without leading zeros. -/
def ofNat (n : Nat) : Text := Nat.toDigits 10 n

/-- A whole number in decimal digits, behind a minus sign if it is negative. -/
def ofInt : Int → Text
  | .ofNat n => ofNat n
  | .negSucc n => '-' :: ofNat (n + 1)

/-- How many digits a number has, and none for zero. -/
def count (n : Nat) : Nat := if n = 0 then 0 else (ofNat n).length

/-- A number of hundredths, with a point and exactly two digits behind it. -/
def hundredths (n : Nat) : Text :=
  ofNat (n / 100) ++ '.' :: (ofNat (n % 100 / 10) ++ ofNat (n % 10))

end MenuPages.Digits
