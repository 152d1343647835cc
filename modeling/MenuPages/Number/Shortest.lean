import MenuPages.Number.Binary64
import MenuPages.Number.Digits

/-!
# The shortest decimal that reads back

A finite number other than zero is written with the fewest decimal digits from which rounding to
the nearest number gives it back. The decimals that do are those in an interval around it, half way
to its neighbours; the ends are in it if the significand is even, because a tie goes to even.

For 1, 2, … 17 digits, the value lies between two neighbours on the grid of decimals with that many
digits. The first grid on which one of the two is in the interval gives the result; if both are,
the nearer one, and of two equally near ones the upper or the even one, as the caller wants it.
-/

namespace MenuPages

/-- A decimal: `coefficient * 10 ^ exponent`. -/
structure Decimal where
  coefficient : Nat
  exponent : Int
  deriving DecidableEq, Repr

namespace Binary64

/-- The decimal exponent of the leading digit of the positive number `num / den`. -/
def leadingExponent (num den : Nat) : Int :=
  if den ≤ num then (Digits.count (num / den) : Int) - 1
  else -(Digits.count ((den - 1) / num) : Int)

/-- Four times the significand is measured against this: the distance down to the end of the
interval is half the step to the next lower number, which is smaller below a power of two. -/
def stepBelow (x : Binary64) : Nat :=
  if x.fractionField = 0 ∧ 1 < x.exponentField then 1 else 2

/-- A decimal `d * 10 ^ e` is in the interval of those that read back as the magnitude of `x`. -/
def readsBack (x : Binary64) (d : Nat) (e : Int) : Bool :=
  let q := x.exponent - 2
  let decimal := (d * Nat.pow 10 e.toNat) <<< (-q).toNat
  let unit := Nat.pow 10 (-e).toNat <<< q.toNat
  let low := (4 * x.significand - x.stepBelow) * unit
  let high := (4 * x.significand + 2) * unit
  if x.significand % 2 = 0 then low ≤ decimal && decimal ≤ high
  else low < decimal && decimal < high

/-- The decimal that a grid gives, if it gives one. -/
def onGrid? (tie : Tie) (x : Binary64) (e : Int) : Option Decimal :=
  let num := x.numerator * Nat.pow 10 (-e).toNat
  let den := x.denominator * Nat.pow 10 e.toNat
  let below := num / den
  match x.readsBack below e, x.readsBack (below + 1) e with
  | true, true => some ⟨roundDiv tie num den, e⟩
  | true, false => some ⟨below, e⟩
  | false, true => some ⟨below + 1, e⟩
  | false, false => none

/-- A decimal without zeros at its end. -/
def trimZeros : (fuel : Nat) → Decimal → Decimal
  | 0, d => d
  | fuel + 1, d =>
    if d.coefficient % 10 = 0 then trimZeros fuel ⟨d.coefficient / 10, d.exponent + 1⟩ else d

/-- The first grid that gives a decimal, from that of the leading digit on. -/
def shortestFrom (tie : Tie) (x : Binary64) (e : Int) : (grids : Nat) → Decimal
  | 0 => ⟨x.numerator * Nat.pow 10 (-e).toNat / (x.denominator * Nat.pow 10 e.toNat), e⟩
  | grids + 1 =>
    match x.onGrid? tie e with
    | some d => trimZeros 17 d
    | none => shortestFrom tie x (e - 1) grids

/-- The shortest decimal that reads back as the magnitude of a finite number other than zero. -/
def shortest (tie : Tie) (x : Binary64) : Decimal :=
  shortestFrom tie x (leadingExponent x.numerator x.denominator) 17

end Binary64

namespace Decimal

/-- The decimal exponent of the first digit. -/
def scientificExponent (d : Decimal) : Int := d.exponent + (Digits.count d.coefficient - 1 : Nat)

/-- A decimal with one digit before the point, and the exponent with its sign: `1.25e+21`. -/
def scientific (d : Decimal) : Text :=
  let e := d.scientificExponent
  let mantissa := match Digits.ofNat d.coefficient with
    | [] => []
    | [c] => [c]
    | c :: s => c :: '.' :: s
  mantissa ++ 'e' :: (if e < 0 then '-' else '+') :: Digits.ofNat e.natAbs

/-- A decimal written out, with at least one digit on either side of the point. -/
def positional (d : Decimal) : Text :=
  if 0 ≤ d.exponent then
    Digits.ofNat d.coefficient ++ List.replicate d.exponent.toNat '0' ++ ['.', '0']
  else
    let places := (-d.exponent).toNat
    let all := Digits.ofNat d.coefficient
    let padded := List.replicate (places + 1 - all.length) '0' ++ all
    padded.take (padded.length - places) ++ '.' :: padded.drop (padded.length - places)

end Decimal

end MenuPages
