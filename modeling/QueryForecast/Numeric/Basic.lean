/-!
# Plain arithmetic on doubles

The sums, bounds and whole-number conversions that the estimator's formulas are written in.
All of them are built from `+`, comparison and truncation, which the logic can evaluate, so a
formula written here means the same on paper and when it runs.
-/

namespace QueryForecast.Numeric

/-- The sum of the numbers from left to right. It starts at negative zero, the neutral element
of addition, so the empty sum is `-0.0`. -/
def sum (xs : List Float) : Float :=
  xs.foldl (· + ·) (-0.0)

/-- The product of the numbers from left to right. -/
def product (xs : List Float) : Float :=
  xs.foldl (· * ·) 1.0

/-- `x` moved into `[low, high]`. An undefined number stays undefined. -/
def clamp (low high x : Float) : Float :=
  if x < low then low else if high < x then high else x

/-- The larger of `bound` and `x`; an undefined `x` counts as below every bound. -/
def atLeast (bound x : Float) : Float :=
  if x.isNaN then bound else if x < bound then bound else x

/-- A natural number as the nearest double. -/
def ofNat (n : Nat) : Float :=
  Float.ofNat n

/-- The whole part of `x`; zero below one and for an undefined `x`, `2^64 - 1` from there on. -/
def wholePart (x : Float) : Nat :=
  x.toUInt64.toNat

/-- The least natural number that is at least `x`; zero for an undefined `x`. -/
def ceiling (x : Float) : Nat :=
  if x.toUInt64.toFloat < x then wholePart x + 1 else wholePart x

/-- How many of `n` things a `fraction` of them is: rounded up, and within `[low, high]`. -/
def portion (n : Nat) (fraction : Float) (low high : Nat) : Nat :=
  min (max (ceiling (ofNat n * fraction)) low) high

theorem portion_le {n : Nat} {fraction : Float} {low high : Nat} :
    portion n fraction low high ≤ high :=
  Nat.min_le_right _ _

theorem le_portion {n : Nat} {fraction : Float} {low high : Nat} (h : low ≤ high) :
    low ≤ portion n fraction low high :=
  Nat.le_min.2 ⟨Nat.le_max_right _ _, h⟩

end QueryForecast.Numeric
