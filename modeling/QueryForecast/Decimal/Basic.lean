import QueryForecast.Numeric.ExactValue

/-!
# Decimal numbers and the grids they lie on

A decimal number is `n · 10^k`. The numbers with a fixed `k` form a grid, and every conversion from
a double to text is a choice of a grid and of a point on it near the double. `onGrid` and
`leadingExponent` do the exact arithmetic, `toFloat` goes the other way.
-/

namespace QueryForecast.Decimal

open Numeric

/-- The decimal number `digits · 10^exponent`. -/
structure Numeral where
  digits : Nat
  exponent : Int
  deriving DecidableEq, Repr

/-- The decimal digits of a natural number, at least one. -/
def digitsOf (n : Nat) : List Char :=
  Nat.toDigits 10 n

/-- A positive exact value divided by `10^k`, as a quotient of natural numbers. -/
def onGrid (d : ExactValue) (k : Int) : Nat × Nat :=
  let (num, den) := d.quotient
  (num * tenPow (-k).toNat, den * tenPow k.toNat)

/-- `k`, raised to the first exponent whose next power of ten exceeds `d`, in at most `steps`
steps. -/
def climb (d : ExactValue) : Nat → Int → Int
  | 0, k => k
  | steps + 1, k =>
    let (num, den) := onGrid d (k + 1)
    if den ≤ num then climb d steps (k + 1) else k

/-- The exponent of the first significant decimal digit of a positive exact value. The binary
exponent times `log₁₀ 2` is at most one off, so the climb starts two below it. -/
def leadingExponent (d : ExactValue) : Int :=
  climb d 4 (((d.mantissa.log2 : Int) + d.exponent) * 1233 / 4096 - 2)

/-- A decimal number without trailing zero digits, which are moved into the exponent. -/
def stripZeros : Nat → Numeral → Numeral
  | 0, x => x
  | fuel + 1, x =>
    if x.digits ≠ 0 ∧ x.digits % 10 = 0 then stripZeros fuel ⟨x.digits / 10, x.exponent + 1⟩ else x

/-- The double nearest to `± digits · 10^exponent`, ties to even. Numbers past the range of doubles
become infinite; so small a number that it cannot reach the least double becomes zero. -/
def toFloat (negative : Bool) (x : Numeral) : Float :=
  let top := (digitsOf x.digits).length + x.exponent
  let size : Float :=
    if x.digits = 0 then 0.0
    else if 310 < top then 1.0 / 0.0
    else if top < -330 then 0.0
    else if 0 ≤ x.exponent then Float.ofScientific x.digits false x.exponent.toNat
    else Float.ofScientific x.digits true (-x.exponent).toNat
  if negative then -size else size

end QueryForecast.Decimal
