import MenuPages.Json.Fault

/-!
# JSON numbers

A number is read from behind its minus sign. A whole number that fits 64 bits stays a whole number;
any other is turned into a binary one.

**How it is turned.** The digits, those of the fraction too, are collected into a significand as
long as it fits 64 bits. Further digits of the whole part raise the decimal exponent by one each;
from the first digit of the fraction that does not fit, the rest is ignored. The significand is
rounded to binary64, and then multiplied or divided once by a power of ten that is itself rounded;
powers beyond `10 ^ 308` are divided off in several steps. So the result need not be the nearest
number to the decimal that was written. A result beyond all finite numbers is a fault.
-/

namespace MenuPages.Json

/-- What a number is read as. -/
inductive Numeral where
  | integer (n : Int)
  | binary (x : Binary64)
  deriving DecidableEq

/-- A number as a binary one. -/
def Numeral.value : Numeral → Binary64
  | .integer n => Binary64.ofRatio (n < 0) n.natAbs 1
  | .binary x => x

/-- A number where another kind of value was expected. -/
def Numeral.found : Numeral → Found
  | .integer n => .integer n
  | .binary x => .binary x

/-! ## Significand and exponent -/

def digitValue (c : Char) : Nat := c.toNat - 0x30

/-- Appends digits to a number as long as it stays below `limit`: the number, and the digits that
were not appended. -/
def collect (limit n : Nat) : Text → Nat × Text
  | [] => (n, [])
  | c :: s =>
    if n * 10 + digitValue c < limit then collect limit (n * 10 + digitValue c) s else (n, c :: s)

/-- A power of ten, rounded. -/
def powerOfTen (n : Nat) : Binary64 := Binary64.ofNat (Nat.pow 10 n)

/-- A number divided by `10 ^ places`, in steps of at most 308 places. -/
def divided (x : Binary64) (places : Nat) : Binary64 :=
  if places ≤ 308 then x.div (powerOfTen places)
  else if x.isZero then x
  else divided (x.div (powerOfTen 308)) (places - 308)
termination_by places

/-- The number `significand * 10 ^ exponent`, unless it is beyond all finite numbers. -/
def scaled? (significand : Nat) (exponent : Int) : Option Binary64 :=
  let x := Binary64.ofNat significand
  if exponent < 0 then some (divided x exponent.natAbs)
  else if exponent ≤ 308 then
    let y := x.mul (powerOfTen exponent.toNat)
    if y.isInfinite then none else some y
  else if significand = 0 then some x
  else none

/-- A number with its sign. -/
def withSign (negative : Bool) (x : Binary64) : Binary64 := if negative then x.neg else x

/-- A whole number. A negative one that is zero or does not fit 64 bits is a binary one. -/
def wholeNumeral (negative : Bool) (n : Nat) : Numeral :=
  if !negative then .integer n
  else if n = 0 ∨ 0x8000000000000000 < n then .binary (withSign true (Binary64.ofNat n))
  else .integer (-n)

/-- Turns a significand and an exponent that stood before `rest` into a number. -/
def readScaled (negative : Bool) (significand : Nat) (exponent : Int) (rest : Text) :
    Outcome Numeral :=
  match scaled? significand exponent with
  | none => failAt .numberOutOfRange rest
  | some x => .ok (.binary (withSign negative x), rest)

/-! ## Reading -/

/-- The digits that a text starts with. -/
def digitsOf (s : Text) : Text := s.takeWhile Char.isDigit

/-- What is behind the digits that a text starts with. -/
def afterDigits (s : Text) : Text := s.dropWhile Char.isDigit

/-- Reads the digits of an exponent, which lowers the exponent so far if `isBelow`. One that is out
of all bounds leaves zero, or is a fault. -/
def readExponentDigits (negative : Bool) (significand : Nat) (exponent : Int) (isBelow : Bool) :
    Text → Outcome Numeral
  | [] => failAt .endInValue []
  | c :: s =>
    if c.isDigit then
      match collect 0x80000000 0 (digitsOf (c :: s)) with
      | (e, []) =>
        readScaled negative significand (if isBelow then exponent - e else exponent + e)
          (afterDigits (c :: s))
      | (_, _ :: unread) =>
        if significand ≠ 0 ∧ !isBelow then
          failAt .numberOutOfRange (unread ++ afterDigits (c :: s))
        else .ok (.binary (withSign negative (Binary64.ofNat 0)), afterDigits (c :: s))
    else failAfter .invalidNumber 1 (c :: s)

/-- Reads an exponent from behind its `e`. -/
def readExponent (negative : Bool) (significand : Nat) (exponent : Int) : Text → Outcome Numeral
  | '+' :: s => readExponentDigits negative significand exponent false s
  | '-' :: s => readExponentDigits negative significand exponent true s
  | s => readExponentDigits negative significand exponent false s

/-- Reads what may follow the digits: an exponent. -/
def readBehindDigits (negative : Bool) (significand : Nat) (exponent : Int) : Text → Outcome Numeral
  | 'e' :: s => readExponent negative significand exponent s
  | 'E' :: s => readExponent negative significand exponent s
  | s => readScaled negative significand exponent s

/-- Reads a fraction from behind its point. -/
def readFraction (negative : Bool) (significand : Nat) (exponent : Int) (s : Text) :
    Outcome Numeral :=
  if (digitsOf s).isEmpty then
    if s.isEmpty then failAt .endInValue [] else failPeek .invalidNumber s
  else
    let found := collect UInt64.size significand (digitsOf s)
    readBehindDigits negative found.1
      (exponent - ((digitsOf s).length - found.2.length : Nat)) (afterDigits s)

/-- Reads what may follow the whole part of a number, of which `dropped` digits are not in the
significand. -/
def readBehindWhole (negative : Bool) (significand dropped : Nat) : Text → Outcome Numeral
  | '.' :: s => readFraction negative significand dropped s
  | 'e' :: s => readExponent negative significand dropped s
  | 'E' :: s => readExponent negative significand dropped s
  | s =>
    if dropped = 0 then .ok (wholeNumeral negative significand, s)
    else readScaled negative significand dropped s

/-- A text starts with a digit. -/
def startsWithDigit : Text → Bool
  | c :: _ => c.isDigit
  | [] => false

/-- Reads a number from behind its minus sign. -/
def readNumber (negative : Bool) : Text → Outcome Numeral
  | [] => failAt .endInValue []
  | c :: s =>
    if c = '0' then
      if startsWithDigit s then failPeek .invalidNumber s else readBehindWhole negative 0 0 s
    else if c.isDigit then
      let found := collect UInt64.size 0 (digitsOf (c :: s))
      readBehindWhole negative found.1 found.2.length (afterDigits s)
    else failAfter .invalidNumber 1 (c :: s)

/-! ## Passing over a number -/

/-- Passes over an exponent from behind its `e` and its sign. -/
def skipExponentDigits : Text → Outcome Unit
  | [] => failAt .invalidNumber []
  | c :: s => if c.isDigit then .ok ((), afterDigits s) else failAfter .invalidNumber 1 (c :: s)

/-- Passes over an exponent from behind its `e`. -/
def skipExponent : Text → Outcome Unit
  | '+' :: s => skipExponentDigits s
  | '-' :: s => skipExponentDigits s
  | s => skipExponentDigits s

/-- Passes over what may follow digits: an exponent. -/
def skipBehindDigits : Text → Outcome Unit
  | 'e' :: s => skipExponent s
  | 'E' :: s => skipExponent s
  | s => .ok ((), s)

/-- Passes over what may follow the whole part of a number. -/
def skipBehindWhole : Text → Outcome Unit
  | '.' :: s =>
    if startsWithDigit s then skipBehindDigits (afterDigits s) else failPeek .invalidNumber s
  | s => skipBehindDigits s

/-- Passes over a number from behind its minus sign. No number is out of range. -/
def skipNumber : Text → Outcome Unit
  | [] => failAt .invalidNumber []
  | c :: s =>
    if c = '0' then
      if startsWithDigit s then failPeek .invalidNumber s else skipBehindWhole s
    else if c.isDigit then skipBehindWhole (afterDigits s)
    else failAfter .invalidNumber 1 (c :: s)

/-! ## Progress -/

theorem length_afterDigits_le (s : Text) : (afterDigits s).length ≤ s.length :=
  Text.length_dropWhile_le _ s

theorem length_of_readScaled {negative : Bool} {m : Nat} {e : Int} {s rest : Text} {n : Numeral}
    (h : readScaled negative m e s = .ok (n, rest)) : rest.length ≤ s.length := by
  unfold readScaled at h
  split at h
  · simp [failAt] at h
  · simp only [Except.ok.injEq, Prod.mk.injEq] at h
    simp [h.2]

theorem length_of_readExponentDigits {negative isBelow : Bool} {m : Nat} {e : Int} {s rest : Text}
    {n : Numeral} (h : readExponentDigits negative m e isBelow s = .ok (n, rest)) :
    rest.length ≤ s.length := by
  unfold readExponentDigits at h
  split at h
  · simp [failAt] at h
  · next c s =>
    have hle := length_afterDigits_le (c :: s)
    split at h
    · split at h
      · exact Nat.le_trans (length_of_readScaled h) hle
      · split at h
        · simp [failAt] at h
        · simp only [Except.ok.injEq, Prod.mk.injEq] at h
          rw [← h.2]
          exact hle
    · simp [failAfter] at h

theorem length_of_readExponent {negative : Bool} {m : Nat} {e : Int} {s rest : Text}
    {n : Numeral} (h : readExponent negative m e s = .ok (n, rest)) : rest.length ≤ s.length := by
  unfold readExponent at h
  split at h
  · exact Nat.le_succ_of_le (length_of_readExponentDigits h)
  · exact Nat.le_succ_of_le (length_of_readExponentDigits h)
  · exact length_of_readExponentDigits h

theorem length_of_readBehindDigits {negative : Bool} {m : Nat} {e : Int} {s rest : Text}
    {n : Numeral} (h : readBehindDigits negative m e s = .ok (n, rest)) :
    rest.length ≤ s.length := by
  unfold readBehindDigits at h
  split at h
  · exact Nat.le_succ_of_le (length_of_readExponent h)
  · exact Nat.le_succ_of_le (length_of_readExponent h)
  · exact length_of_readScaled h

theorem length_of_readFraction {negative : Bool} {m : Nat} {e : Int} {s rest : Text}
    {n : Numeral} (h : readFraction negative m e s = .ok (n, rest)) : rest.length ≤ s.length := by
  unfold readFraction at h
  split at h
  · split at h <;> simp [failAt, failPeek, failAfter] at h
  · exact Nat.le_trans (length_of_readBehindDigits h) (length_afterDigits_le s)

theorem length_of_readBehindWhole {negative : Bool} {m d : Nat} {s rest : Text} {n : Numeral}
    (h : readBehindWhole negative m d s = .ok (n, rest)) : rest.length ≤ s.length := by
  unfold readBehindWhole at h
  split at h
  · exact Nat.le_succ_of_le (length_of_readFraction h)
  · exact Nat.le_succ_of_le (length_of_readExponent h)
  · exact Nat.le_succ_of_le (length_of_readExponent h)
  · split at h
    · simp only [Except.ok.injEq, Prod.mk.injEq] at h
      simp [h.2]
    · exact length_of_readScaled h

/-- A number takes at least one digit. -/
theorem length_of_readNumber {negative : Bool} {s rest : Text} {n : Numeral}
    (h : readNumber negative s = .ok (n, rest)) : rest.length < s.length := by
  unfold readNumber at h
  split at h
  · simp [failAt] at h
  · next c s =>
    split at h
    · split at h
      · simp [failPeek, failAfter] at h
      · exact Nat.lt_succ_of_le (length_of_readBehindWhole h)
    · split at h
      · exact Nat.lt_succ_of_le
          (Nat.le_trans (length_of_readBehindWhole h) (length_afterDigits_le s))
      · simp [failAfter] at h

theorem length_of_skipExponentDigits {s rest : Text} {u : Unit}
    (h : skipExponentDigits s = .ok (u, rest)) : rest.length ≤ s.length := by
  unfold skipExponentDigits at h
  split at h
  · simp [failAt] at h
  · next c s =>
    split at h
    · simp only [Except.ok.injEq, Prod.mk.injEq] at h
      rw [← h.2]
      exact Nat.le_succ_of_le (length_afterDigits_le s)
    · simp [failAfter] at h

theorem length_of_skipExponent {s rest : Text} {u : Unit} (h : skipExponent s = .ok (u, rest)) :
    rest.length ≤ s.length := by
  unfold skipExponent at h
  split at h
  · exact Nat.le_succ_of_le (length_of_skipExponentDigits h)
  · exact Nat.le_succ_of_le (length_of_skipExponentDigits h)
  · exact length_of_skipExponentDigits h

theorem length_of_skipBehindDigits {s rest : Text} {u : Unit}
    (h : skipBehindDigits s = .ok (u, rest)) : rest.length ≤ s.length := by
  unfold skipBehindDigits at h
  split at h
  · exact Nat.le_succ_of_le (length_of_skipExponent h)
  · exact Nat.le_succ_of_le (length_of_skipExponent h)
  · simp only [Except.ok.injEq, Prod.mk.injEq] at h
    simp [h.2]

theorem length_of_skipBehindWhole {s rest : Text} {u : Unit}
    (h : skipBehindWhole s = .ok (u, rest)) : rest.length ≤ s.length := by
  unfold skipBehindWhole at h
  split at h
  · next s =>
    split at h
    · exact Nat.le_succ_of_le
        (Nat.le_trans (length_of_skipBehindDigits h) (length_afterDigits_le s))
    · simp [failPeek, failAfter] at h
  · exact length_of_skipBehindDigits h

theorem length_of_skipNumber {s rest : Text} {u : Unit} (h : skipNumber s = .ok (u, rest)) :
    rest.length < s.length := by
  unfold skipNumber at h
  split at h
  · simp [failAt] at h
  · next c s =>
    split at h
    · split at h
      · simp [failPeek, failAfter] at h
      · exact Nat.lt_succ_of_le (length_of_skipBehindWhole h)
    · split at h
      · exact Nat.lt_succ_of_le
          (Nat.le_trans (length_of_skipBehindWhole h) (length_afterDigits_le s))
      · simp [failAfter] at h

end MenuPages.Json
