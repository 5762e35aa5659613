/-!
# Ranges of character numbers

A class of characters as the ranges of their numbers, both ends included. The tables of a property
list their ranges in ascending order, so a search ends at the first range that starts above the
number.
-/

namespace QueryForecast.Text

/-- A class of characters: ranges of numbers in ascending order. -/
abbrev Ranges := List (Nat × Nat)

/-- Whether a number lies in one of the ranges. -/
def Ranges.covers : Ranges → Nat → Bool
  | [], _ => false
  | (low, high) :: rest, n => low ≤ n && (n ≤ high || Ranges.covers rest n)

end QueryForecast.Text
