/-!
# Ranges of characters

A property of characters that no rule gives is a table of ranges of code points.
-/

namespace MenuPages.Text

/-- Ranges of code points, each given by its first and its last. -/
abbrev Ranges := List (Nat × Nat)

/-- A character lies in one of the ranges. -/
def Ranges.holds (rs : Ranges) (c : Char) : Bool := rs.any fun r => r.1 ≤ c.toNat && c.toNat ≤ r.2

end MenuPages.Text
