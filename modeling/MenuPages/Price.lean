import MenuPages.Number.Shortest
import MenuPages.Text.Blank

/-!
# Prices

An amount is shown in one of two ways. Templates get it with a point and two decimals
(`Price.fixed`). The built-in pages show it the Spanish way (`Price.format`): a comma before the
decimals, points between groups of three digits, and the sign of the currency behind a space that
does not break.

**The two decimals** are those of the exact value of the number, to the nearest hundredth and to the
even one of two. An amount that is found to lie exactly between two hundredths (`isBetween`) goes to
the larger magnitude before. It is found by its hundredfold, which is rounded to binary64 itself, and
only multiples of an eighth are asked.
-/

namespace MenuPages.Price

/-! ## Two decimals -/

/-- The hundredfold of a number, as binary64 has it. -/
def scaled (x : Binary64) : Binary64 := x.mul (.ofNat 100)

/-- A number is found to lie halfway between two hundredths. -/
def isBetween (x : Binary64) : Bool := (x.mul (.ofNat 8)).isWhole && (scaled x).isHalf

/-- The magnitude of a finite number, in hundredths. -/
def hundredths (x : Binary64) : Nat :=
  if isBetween x then
    ((Binary64.ofNat ((scaled x).round .up)).div (.ofNat 100)).roundHundredths .toEven
  else x.roundHundredths .toEven

/-- The magnitude is at least `10 ^ 21`, from where on plain digits are not written out. -/
def isHuge (x : Binary64) : Bool := Nat.pow 10 21 * x.denominator ≤ x.numerator

/-- A minus sign in front of a text. -/
def signed (negative : Bool) (s : Text) : Text := if negative then '-' :: s else s

/-- An amount with exactly two decimals. -/
def fixed (x : Binary64) : Text :=
  if x.isNaN then "NaN".toList
  else if x.isInfinite then signed x.isNegative "Infinity".toList
  else if x.isZero then "0.00".toList
  else if isHuge x then signed x.isNegative (x.shortest .up).scientific
  else signed x.isNegative (Digits.hundredths (hundredths x))

/-! ## The Spanish way -/

/-- Currencies that are shown without zeros at the end of the decimals. -/
def wholeCurrencies : List Text :=
  ["CLP".toList, "ISK".toList, "JPY".toList, "KRW".toList, "VND".toList]

/-- The sign of a currency. -/
def symbol (code : Text) : Text :=
  if code == "EUR".toList then ['€']
  else if code == "USD".toList then "US$".toList
  else code

/-- Digits, last one first, with a point behind each three that others follow. -/
def groupReversed : Text → Text
  | a :: b :: c :: d :: s => a :: b :: c :: '.' :: groupReversed (d :: s)
  | s => s

/-- Digits with a point in front of each three counted from the right, if there are at least five
of them. -/
def grouped (digits : Text) : Text :=
  if digits.length < 5 then digits else (groupReversed digits.reverse).reverse

/-- A text without the zeros at its end. -/
def dropTrailingZeros (s : Text) : Text := (s.reverse.dropWhile (· == '0')).reverse

/-- The magnitude of a finite amount, with a comma and grouped digits. -/
def localNumber (code : Text) (x : Binary64) : Text :=
  let all := Digits.hundredths (hundredths x)
  let whole := all.takeWhile (· != '.')
  let decimals := (all.dropWhile (· != '.')).drop 1
  let shown := if wholeCurrencies.contains code then dropTrailingZeros decimals else decimals
  if shown.isEmpty then grouped whole else grouped whole ++ ',' :: shown

/-- A currency code is three ASCII letters. -/
def isCode (s : Text) : Bool := s.length == 3 && s.all Char.isAlpha

/-- An amount of a currency. A blank currency is the euro. Behind what is no currency code nothing
is known of how to show the amount, so it is shown plainly. -/
def format (x : Binary64) (currency : Text) : Text :=
  let currency := if Text.allBlank currency then "EUR".toList else currency
  if isCode currency then
    let code := currency.map Char.toUpper
    let number :=
      if x.isNaN then "NaN".toList
      else if x.isInfinite then ['∞']
      else localNumber code x
    signed (x.isNegative && !x.isNaN) number ++ '\u00a0' :: symbol code
  else
    Text.trim (fixed x ++ ' ' :: currency)

end MenuPages.Price
