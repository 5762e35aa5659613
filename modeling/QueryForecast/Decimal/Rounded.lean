import QueryForecast.Decimal.Basic

/-!
# Rounding to a given number of digits after the point

The exact value of the double is rounded, a half going to the even digit.
-/

namespace QueryForecast.Decimal

open Numeric

/-- The magnitude of a finite double in units of `10^-count`. -/
def places (count : Nat) (x : Float) : Nat :=
  let (num, den) := onGrid (ExactValue.ofFloat x) (-(count : Int))
  divideToEven num den

end QueryForecast.Decimal
