import QueryForecast.Numeric.Fused

/-!
# The natural logarithm of `1 + x`

Cardinalities are fitted on a logarithmic scale. `logOnePlus x` is `ln (1 + x)` to within one unit
in the last place, also where `1 + x` would lose the digits of a small `x`.

The argument is written as `1 + x = 2^k · (1 + f)` with `1 + f` between `√2/2` and `√2`. With
`s = f / (2 + f)`, the logarithm of `1 + f` is `2s + s · R(s²)` for a polynomial `R` that is
optimal on that range, and `k · ln 2` is added in two parts, the larger of which has so few bits
that `k` times it is exact.
-/

namespace QueryForecast.Numeric

/-- The leading bits of `ln 2`; 21 trailing zero bits make its small multiples exact. -/
def lnTwoHigh : Float := Float.ofBits 0x3fe62e42fee00000

/-- What `lnTwoHigh` leaves of `ln 2`. -/
def lnTwoLow : Float := Float.ofBits 0x3dea39ef35793c76

/-- The polynomial `R(z)` of the logarithm, for `z = s²`. -/
def logPolynomial (z : Float) : Float :=
  let c1 := Float.ofBits 0x3fe5555555555593
  let c2 := Float.ofBits 0x3fd999999997fa04
  let c3 := Float.ofBits 0x3fd2492494229359
  let c4 := Float.ofBits 0x3fcc71c51d8e78af
  let c5 := Float.ofBits 0x3fc7466496cb03de
  let c6 := Float.ofBits 0x3fc39a09d078c69f
  let c7 := Float.ofBits 0x3fc2f112df3e5244
  let z2 := z * z
  let z4 := z2 * z2
  fused (z2 * z4) (fused z c7 c6)
    (fused z4 (fused z c5 c4) (fused z c1 (z2 * fused z c3 c2)))

/-- `ln (1 + f)` on the central range. -/
def logCentral (f : Float) : Float :=
  let halfSquare := 0.5 * f * f
  let s := f / (2.0 + f)
  f - (halfSquare - s * (halfSquare + logPolynomial (s * s)))

/-- `k · ln 2 + ln (1 + f) + c`, where `c` is what rounding `1 + x` lost. A `flat` argument lies so
close to a power of two that two terms of the series are enough. For `k = 0` the loss is below the
last place of the result and is left out. -/
def logScaled (k : Int) (f c : Float) (flat : Bool) : Float :=
  let times := Float.ofInt k
  let halfSquare := 0.5 * f * f
  if flat then
    if f == 0.0 then
      if k = 0 then 0.0 else fused times lnTwoHigh (fused times lnTwoLow c)
    else
      let r := fused (-0.66666666666666666) f 1.0 * halfSquare
      if k = 0 then f - r
      else fused times lnTwoHigh (-((r - fused times lnTwoLow c) - f))
  else if k = 0 then logCentral f
  else
    let s := f / (2.0 + f)
    let r := s * (halfSquare + logPolynomial (s * s))
    fused times lnTwoHigh (-((halfSquare - (fused times lnTwoLow c + r)) - f))

/-- The number with the fraction bits of `u` and the exponent `k`. -/
def withExponent (u : Float) (k : Int) : Float :=
  Float.ofBits (UInt64.ofNat ((k + 1023).toNat * 0x10000000000000 + fractionField u))

/-- `ln u + c` for a positive `u`, by way of its power of two. -/
def logReduced (u c : Float) : Float :=
  let k := (exponentField u : Int) - 1023
  let unit := withExponent u 0
  if unit < Float.ofBits 0x3ff6a09e00000000 then
    logScaled k (unit - 1.0) c (decide (unit < Float.ofBits 0x3ff0000100000000))
  else
    logScaled (k + 1) (withExponent u (-1) - 1.0) c
      (decide (Float.ofBits 0x3ffffffd00000000 ≤ unit))

/-- `ln (1 + x)`; negative infinity at `-1`, undefined below it. -/
def logOnePlus (x : Float) : Float :=
  if x.isNaN then x
  else if x ≤ -1.0 then
    if x == -1.0 then -(1.0 / 0.0) else 0.0 / 0.0
  else if x.isInf then x
  else if x.abs < powerOfTwo (-54) then x
  else if x.abs < powerOfTwo (-29) then x - x * x * 0.5
  else if -Float.ofBits 0x3fd2bec400000000 < x ∧ x < Float.ofBits 0x3fda827a00000000 then
    logCentral x
  else if x < powerOfTwo 53 then
    let u := 1.0 + x
    let lost := if (2.0 : Float) ≤ u then 1.0 - (u - x) else x - (u - 1.0)
    logReduced u (lost / u)
  else logReduced x 0.0

end QueryForecast.Numeric
