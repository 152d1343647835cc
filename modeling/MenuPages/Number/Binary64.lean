import MenuPages.Number.Rounding

/-!
# Binary64

A 64-bit floating-point number is its bits: a sign, eleven bits of exponent, 52 of fraction. The
magnitude of a finite number is read off exactly, as a whole number times a power of two and as a
fraction of natural numbers; and `ofRatio` rounds any fraction to the nearest number, the one with
an even significand if two are equally near. All arithmetic is done on the exact fractions, with
one rounding at the end, so nothing here computes with machine floating point.
-/

namespace MenuPages

/-- A 64-bit floating-point number. -/
structure Binary64 where
  bits : UInt64
  deriving DecidableEq

namespace Binary64

/-! ## Fields -/

/-- The sign bit is set. This holds of -0 too. -/
def isNegative (x : Binary64) : Bool := 0x8000000000000000 ≤ x.bits.toNat

/-- The eleven bits of the exponent. -/
def exponentField (x : Binary64) : Nat := x.bits.toNat >>> 52 % 0x800

/-- The 52 bits of the fraction. -/
def fractionField (x : Binary64) : Nat := x.bits.toNat % 0x10000000000000

def isFinite (x : Binary64) : Bool := x.exponentField != 2047

def isNaN (x : Binary64) : Bool := x.exponentField == 2047 && x.fractionField != 0

def isInfinite (x : Binary64) : Bool := x.exponentField == 2047 && x.fractionField == 0

/-! ## Magnitude of a finite number -/

/-- The magnitude is `significand * 2 ^ exponent`. -/
def significand (x : Binary64) : Nat :=
  if x.exponentField = 0 then x.fractionField else x.fractionField + 0x10000000000000

/-- The magnitude is `significand * 2 ^ exponent`. -/
def exponent (x : Binary64) : Int := (max x.exponentField 1 : Nat) - (1075 : Int)

/-- The magnitude is `numerator / denominator`. -/
def numerator (x : Binary64) : Nat := x.significand <<< x.exponent.toNat

/-- The magnitude is `numerator / denominator`. -/
def denominator (x : Binary64) : Nat := 1 <<< (-x.exponent).toNat

theorem denominator_pos (x : Binary64) : 0 < x.denominator := by
  rw [denominator, Nat.one_shiftLeft]
  exact Nat.two_pow_pos _

/-- The number is 0 or -0. -/
def isZero (x : Binary64) : Bool := x.isFinite && x.significand == 0

/-- A finite number is a whole number. -/
def isWhole (x : Binary64) : Bool := x.numerator % x.denominator == 0

/-- A finite number lies halfway between two whole numbers. -/
def isHalf (x : Binary64) : Bool := 2 * (x.numerator % x.denominator) == x.denominator

/-- The whole number nearest to the magnitude of a finite number. -/
def round (tie : Tie) (x : Binary64) : Nat := roundDiv tie x.numerator x.denominator

/-- The magnitude of a finite number in hundredths, to the nearest one. -/
def roundHundredths (tie : Tie) (x : Binary64) : Nat :=
  roundDiv tie (x.numerator * 100) x.denominator

/-! ## Rounding to binary64 -/

/-- The bits of infinity. -/
def infinityBits : Nat := 0x7FF0000000000000

/-- The exponent of the number nearest to `num / den`, before rounding: the quotient by this power
of two lies between `2 ^ 52` and `2 ^ 53`, unless it is too small to have that many bits. -/
def roundingExponent (num den : Nat) : Int :=
  let guess : Int := (num.log2 : Int) - den.log2 - 52
  let isLow := num <<< (-guess).toNat < den <<< guess.toNat <<< 52
  if num = 0 then -1074 else max (if isLow then guess - 1 else guess) (-1074)

/-- The bits of the magnitude nearest to `num / den`, of two equally near the even one. The
significand carries into the exponent by itself, and beyond all finite numbers lies infinity. -/
def magnitudeBits (num den : Nat) : Nat :=
  let e := roundingExponent num den
  let m := roundDiv .toEven (num <<< (-e).toNat) (den <<< e.toNat)
  min infinityBits ((e + 1074).toNat <<< 52 + m)

/-- The number nearest to `num / den`, or to its negative. -/
def ofRatio (negative : Bool) (num den : Nat) : Binary64 :=
  ⟨UInt64.ofNat ((if negative then 0x8000000000000000 else 0) + magnitudeBits num den)⟩

/-- The number nearest to a natural number. -/
def ofNat (n : Nat) : Binary64 := ofRatio false n 1

/-- The negative of a number: its sign bit changes. -/
def neg (x : Binary64) : Binary64 := ⟨x.bits ^^^ 0x8000000000000000⟩

/-- A number without its sign. -/
def abs (x : Binary64) : Binary64 := ⟨x.bits &&& 0x7FFFFFFFFFFFFFFF⟩

/-- The product of two finite numbers, rounded. -/
def mul (x y : Binary64) : Binary64 :=
  ofRatio (x.isNegative != y.isNegative) (x.numerator * y.numerator) (x.denominator * y.denominator)

/-- The quotient of two finite numbers of which the second is not zero, rounded. -/
def div (x y : Binary64) : Binary64 :=
  ofRatio (x.isNegative != y.isNegative) (x.numerator * y.denominator) (x.denominator * y.numerator)

end Binary64

end MenuPages
