/-!
# Sets of characters as code point ranges

A character class is a sorted list of disjoint closed ranges. `Ranges.contains` stops at the first
range above the code point, so a character pays only for the ranges below it.
-/

namespace SqlQuery.Text

/-- Closed ranges of code points, in increasing order and disjoint. -/
abbrev Ranges := List (Nat × Nat)

/-- Whether a code point lies in one of the ranges. -/
def Ranges.contains : Ranges → Nat → Bool
  | [], _ => false
  | (low, high) :: rest, n => if n < low then false else if n ≤ high then true else Ranges.contains rest n

end SqlQuery.Text
