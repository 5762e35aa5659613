import QueryForecast.Numeric.ExactValue

/-!
# A product and a sum with one rounding

`fused x y z` is `x · y + z` rounded once, where `x * y + z` rounds the product and then the sum.
The elementary functions are evaluated with it, and the last digit of their results depends on where
they round.

Products and sums of exact values are exact; the only rounding is `ExactValue.toFloat`.
-/

namespace QueryForecast.Numeric

/-- The mantissa with the sign of the value. -/
def ExactValue.signed (d : ExactValue) : Int :=
  if d.negative then -d.mantissa else d.mantissa

/-- The value `n · 2^e`. -/
def ExactValue.ofInt (n : Int) (e : Int) : ExactValue :=
  ⟨n < 0, n.natAbs, e⟩

/-- The product of two exact values. -/
def ExactValue.mul (a b : ExactValue) : ExactValue :=
  ⟨a.negative != b.negative, a.mantissa * b.mantissa, a.exponent + b.exponent⟩

/-- The sum of two exact values, written with the smaller of their exponents. -/
def ExactValue.add (a b : ExactValue) : ExactValue :=
  let least := min a.exponent b.exponent
  ofInt
    (a.signed * twoPow (a.exponent - least).toNat + b.signed * twoPow (b.exponent - least).toNat)
    least

theorem ExactValue.signed_ofInt (n e : Int) : (ofInt n e).signed = n := by
  simp only [ofInt, signed, decide_eq_true_eq]
  split <;> omega

theorem ExactValue.signed_mul (a b : ExactValue) : (a.mul b).signed = a.signed * b.signed := by
  obtain ⟨s, m, e⟩ := a
  obtain ⟨t, n, f⟩ := b
  cases s <;> cases t
  · exact Int.natCast_mul m n
  · exact (congrArg Neg.neg (Int.natCast_mul m n)).trans (Int.mul_neg ..).symm
  · exact (congrArg Neg.neg (Int.natCast_mul m n)).trans (Int.neg_mul ..).symm
  · exact (Int.natCast_mul m n).trans (Int.neg_mul_neg ..).symm

theorem ExactValue.signed_add (a b : ExactValue) :
    (a.add b).signed =
      a.signed * twoPow (a.exponent - min a.exponent b.exponent).toNat
        + b.signed * twoPow (b.exponent - min a.exponent b.exponent).toNat :=
  signed_ofInt _ _

/-- The double nearest to an exact value, ties to even. Its last bit has weight `2^quantum`, so the
bit pattern is the exponent field that belongs to `quantum`, plus the number of units; a carry out
of the fraction moves into the exponent field by itself. Past the range of doubles it is infinite.
-/
def ExactValue.toFloat (d : ExactValue) : Float :=
  let quantum := max ((d.mantissa.log2 : Int) + d.exponent - 52) (-1074)
  let shift := d.exponent - quantum
  let units := divideToEven (d.mantissa * twoPow shift.toNat) (twoPow (-shift).toNat)
  let pattern := if d.mantissa = 0 then 0 else (quantum + 1074).toNat * 0x10000000000000 + units
  let size := Float.ofBits (UInt64.ofNat (min pattern 0x7ff0000000000000))
  if d.negative then -size else size

/-- The double nearest to `x · y + z`. An exact zero has the sign that plain arithmetic gives it. -/
def fused (x y z : Float) : Float :=
  if x.isFinite && y.isFinite then
    if z.isFinite then
      let total := ((ExactValue.ofFloat x).mul (ExactValue.ofFloat y)).add (ExactValue.ofFloat z)
      if total.mantissa = 0 then x * y + z else total.toFloat
    else z
  else x * y + z

end QueryForecast.Numeric
