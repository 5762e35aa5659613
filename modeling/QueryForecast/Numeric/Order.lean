import QueryForecast.Numeric.Basic

/-!
# The total order of doubles

`<` leaves an undefined number unordered and makes the two zeros equal. Sorting needs an order in
which any two doubles compare, so doubles are placed by `rank`: negative infinity first, then the
negative numbers, `-0.0`, `0.0`, the positive numbers, positive infinity, and the undefined number
last.

`precedes_total` and `precedes_trans` are what a stable sort by `precedes` relies on.
-/

namespace QueryForecast.Numeric

/-- The place of `x` among all doubles. The bit pattern of a non-negative double grows with the
number and that of a negative one shrinks, so the sign decides how the pattern is read. There is one
value that is not a number, and it comes last: no computation tells its patterns apart. -/
def rank (x : Float) : UInt64 :=
  if x.toBits < 0x8000000000000000 then x.toBits ||| 0x8000000000000000 else ~~~x.toBits

/-- `x` comes before `y` in the total order, or is equal to it. -/
def precedes (x y : Float) : Bool :=
  decide (rank x ≤ rank y)

theorem precedes_total (x y : Float) : (precedes x y || precedes y x) = true := by
  simp only [precedes, Bool.or_eq_true, decide_eq_true_eq, UInt64.le_iff_toNat_le]
  omega

theorem precedes_trans (x y z : Float) (hxy : precedes x y = true) (hyz : precedes y z = true) :
    precedes x z = true := by
  simp only [precedes, decide_eq_true_eq, UInt64.le_iff_toNat_le] at *
  omega

/-- The numbers in ascending total order. -/
def ascending (xs : List Float) : List Float :=
  xs.mergeSort precedes

/-- The position of the value at `fraction` among `n` ascending ones: `(n - 1) · fraction`,
rounded down, with the fraction moved into `[0, 1]` first. -/
def percentileIndex (n : Nat) (fraction : Float) : Nat :=
  wholePart (ofNat (n - 1) * clamp 0.0 1.0 fraction)

/-- The value at `fraction` of the ascending numbers; zero when there are none. -/
def percentile (xs : List Float) (fraction : Float) : Float :=
  (ascending xs).getD (percentileIndex xs.length fraction) 0.0

end QueryForecast.Numeric
