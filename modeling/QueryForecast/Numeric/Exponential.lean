import QueryForecast.Numeric.Logarithm

/-!
# The exponential less one

The inverse of `logOnePlus`: `expMinusOne x` is `e^x - 1` to within one unit in the last place,
also where `e^x` would lose the digits of a small result.

The argument is written as `x = k · ln 2 + r` with `|r| ≤ ln 2 / 2`; a rational function gives
`e^r - 1`, and the factor `2^k` is put on without another rounding of the leading part.
-/

namespace QueryForecast.Numeric

/-- The polynomial of the central range, in `h = r² / 2`. -/
def expPolynomial (h : Float) : Float :=
  let c1 := Float.ofBits 0xbfa11111111110f4
  let c2 := Float.ofBits 0x3f5a01a019fe5585
  let c3 := Float.ofBits 0xbf14ce199eaadbb7
  let c4 := Float.ofBits 0x3ed0cfca86e65239
  let c5 := Float.ofBits 0xbe8afdb76e09c32d
  let h2 := h * h
  fused (h2 * h2) (fused h c5 c4) (fused h2 (fused h c3 c2) (fused h c1 1.0))

/-- The correction `e` with `e^r - 1 = r - (r · e - r² / 2)`. -/
def expCorrection (r : Float) : Float :=
  let half := 0.5 * r
  let h := r * half
  let p := expPolynomial h
  let t := fused (-p) half 3.0
  h * ((p - t) / fused (-r) t 6.0)

/-- `x · 2^k`, in two steps so that neither factor leaves the range of doubles. -/
def scaleBy (x : Float) (k : Int) : Float :=
  x * powerOfTwo (k - k / 2) * powerOfTwo (k / 2)

/-- `2^k · e^(r + c) - 1`, where `c` is what rounding `r` lost. Which of the terms is subtracted
first depends on `k`, so that the larger ones cancel exactly. -/
def expScaled (k : Int) (r c : Float) : Float :=
  let h := r * (0.5 * r)
  let e := fused (expCorrection r - c) r (-c) - h
  if k = -1 then fused 0.5 (r - e) (-0.5)
  else if k = 1 then
    if r < -0.25 then -2.0 * (e - (r + 0.5)) else fused 2.0 (r - e) 1.0
  else if k ≤ -2 ∨ 56 < k then scaleBy (1.0 - (e - r)) k - 1.0
  else if k < 20 then scaleBy ((1.0 - powerOfTwo (-k)) - (e - r)) k
  else scaleBy ((r - (e + powerOfTwo (-k))) + 1.0) k

/-- The whole number nearest to `x`, halves away from zero, for `|x|` below `2^53`. -/
def nearestWhole (x : Float) : Int :=
  if x < 0.0 then -(0.5 - x).toUInt64.toNat else (x + 0.5).toUInt64.toNat

/-- `e^(r + c) - 1` for an argument past the central range, as its `k`, `r` and `c`. -/
def expReduced (k : Int) (x : Float) : Float :=
  let t := Float.ofInt k
  let high := fused (-t) lnTwoHigh x
  let low := t * lnTwoLow
  let r := high - low
  expScaled k r ((high - r) - low)

/-- `e^x - 1`. -/
def expMinusOne (x : Float) : Float :=
  if x.isNaN then x
  else if Float.ofBits 0x40862e42fefa39ef < x then 1.0 / 0.0
  else if x ≤ -Float.ofBits 0x4043687a00000000 then -1.0
  else if x.abs < powerOfTwo (-54) then x
  else if x.abs < Float.ofBits 0x3fd62e4300000000 then
    let h := x * (0.5 * x)
    x - fused x (expCorrection x) (-h)
  else if x.abs < Float.ofBits 0x3ff0a2b200000000 then
    expReduced (if x < 0.0 then -1 else 1) x
  else
    let quotient := Float.ofBits 0x3ff71547652b82fe * x
    expReduced (nearestWhole quotient) x

end QueryForecast.Numeric
