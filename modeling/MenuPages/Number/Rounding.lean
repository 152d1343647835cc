/-!
# Rounded quotients

Division of natural numbers to the nearest whole number. What happens halfway between two is a
choice of whoever rounds, so it is a parameter.
-/

namespace MenuPages

/-- Where a number halfway between two neighbours goes. -/
inductive Tie where
  | toEven
  | up
  deriving DecidableEq, Repr

/-- The whole number nearest to `num / den`. -/
def roundDiv (tie : Tie) (num den : Nat) : Nat :=
  let below := num / den
  let twice := 2 * (num % den)
  if twice < den then below
  else if den < twice then below + 1
  else
    match tie with
    | .toEven => below + below % 2
    | .up => below + 1

end MenuPages
