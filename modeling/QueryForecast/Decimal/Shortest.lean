import QueryForecast.Decimal.Basic

/-!
# The shortest decimal that reads back

`shortest tie x` is the decimal number with the fewest digits among those that read back as the
double `x`, and the nearest to `x` of these. Where the two nearest are equally near, `tie` chooses.

All reals between two bounds round to `x`: half the gap to its neighbours on either side, the bounds
themselves included when the mantissa is even. If a point of a decimal grid lies between the bounds,
so does one of the two grid points next to `x`; hence it is enough to look at those two, on coarser
grids first.
-/

namespace QueryForecast.Decimal

open Numeric

/-- Which of two neighbours on a grid stands for a value halfway between them. -/
inductive Tie where
  | toEven
  | away
  deriving DecidableEq, Repr

/-- Whether the point above `down` is taken for a value halfway up to it. -/
def Tie.goesUp : Tie → Nat → Bool
  | .toEven, down => down % 2 = 1
  | .away, _ => true

/-- The reals that round to a positive double: four times the double is `4 · mantissa`, and the
bounds lie `below` and `above` it in units of a quarter of the last place. -/
structure Interval where
  value : ExactValue
  below : Nat
  above : Nat
  closed : Bool
  deriving Repr

/-- The interval of a finite positive double. At a power of two the gap below is half as wide. -/
def Interval.ofFloat (x : Float) : Interval :=
  let d := ExactValue.ofFloat x
  let narrow := fractionField x = 0 ∧ 1 < exponentField x
  { value := ⟨false, 4 * d.mantissa, d.exponent - 2⟩
    below := if narrow then 1 else 2
    above := 2
    closed := d.mantissa % 2 = 0 }

/-- Whether the point `n · 10^k` rounds to the double of the interval. -/
def Interval.contains (i : Interval) (n : Nat) (k : Int) : Bool :=
  let (low, den) := onGrid { i.value with mantissa := i.value.mantissa - i.below } k
  let (high, _) := onGrid { i.value with mantissa := i.value.mantissa + i.above } k
  if i.closed then low ≤ n * den ∧ n * den ≤ high else low < n * den ∧ n * den < high

/-- The grid point next to the double that rounds to it and is nearest, if either does. -/
def Interval.nearest? (i : Interval) (tie : Tie) (k : Int) : Option Nat :=
  let (num, den) := onGrid i.value k
  let down := num / den
  let rest := num % den
  if i.contains down k then
    if i.contains (down + 1) k ∧ (den < 2 * rest ∨ (den = 2 * rest ∧ tie.goesUp down)) then
      some (down + 1)
    else some down
  else if i.contains (down + 1) k then some (down + 1)
  else none

/-- The first hit on the grids from `10^k` downwards, trying `tries` of them. -/
def Interval.search (i : Interval) (tie : Tie) : Nat → Int → Numeral
  | 0, k => ⟨i.value.mantissa, k⟩
  | tries + 1, k =>
    match i.nearest? tie k with
    | some n => ⟨n, k⟩
    | none => i.search tie tries (k - 1)

/-- The shortest decimal of the magnitude of a finite double. Seventeen digits are always enough. -/
def shortest (tie : Tie) (x : Float) : Numeral :=
  let d := ExactValue.ofFloat x
  if d.mantissa = 0 then ⟨0, 0⟩
  else stripZeros 18 ((Interval.ofFloat x.abs).search tie 18 (leadingExponent d))

end QueryForecast.Decimal
