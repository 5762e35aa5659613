import QueryForecast.Numeric.ExactValue

/-!
# Rounding to single precision

Query vectors are stored in single precision: 24 significant bits and exponents from `-149` up.
`toSingle` rounds a double to that grid, ties to even, and returns the rounded number as a double.
-/

namespace QueryForecast.Numeric

/-- The exponent of the last bit that single precision keeps of a number whose leading bit has
weight `2^top`. -/
def singleQuantum (top : Int) : Int :=
  max (top - 23) (-149)

/-- `n · 2^k` for a natural number of at most 25 bits. -/
def scaled (n : Nat) (k : Int) : Float :=
  n.toUInt64.toFloat * powerOfTwo k

/-- The double nearest to `x` among the numbers that single precision holds; past the largest of
them, infinity. -/
def toSingle (x : Float) : Float :=
  if x.isFinite then
    let d := ExactValue.ofFloat x
    let quantum := singleQuantum (d.mantissa.log2 + d.exponent)
    let shift := d.exponent - quantum
    let units := divideToEven (d.mantissa * twoPow shift.toNat) (twoPow (-shift).toNat)
    let size := if (units.log2 : Int) + quantum < 128 then scaled units quantum else 1.0 / 0.0
    if d.negative then -size else size
  else x

end QueryForecast.Numeric
