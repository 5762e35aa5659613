import QueryForecast.Numeric.Power

/-!
# The exact value of a double

Every finite double is `± m · 2^e` for a natural number `m` and an integer `e`. `ExactValue` is that
reading; text output, rounding to single precision and comparisons against decimal fractions are
done on it in exact integer arithmetic.
-/

namespace QueryForecast.Numeric

/-- The number `m · 2^e`, with a sign of its own so that negative zero keeps it. -/
structure ExactValue where
  negative : Bool
  mantissa : Nat
  exponent : Int
  deriving DecidableEq, Repr

/-- The exponent field of a double, between 0 and 2047. -/
def exponentField (x : Float) : Nat :=
  x.toBits.toNat / 0x10000000000000 % 2048

/-- The fraction field of a double, below `2^52`. -/
def fractionField (x : Float) : Nat :=
  x.toBits.toNat % 0x10000000000000

/-- Whether the sign bit of a double is set. -/
def signBit (x : Float) : Bool :=
  decide (0x8000000000000000 ≤ x.toBits.toNat)

/-- The exact value of a finite double. A zero exponent field marks the numbers without the
leading one bit, which share the least exponent. -/
def ExactValue.ofFloat (x : Float) : ExactValue :=
  if exponentField x = 0 then ⟨signBit x, fractionField x, -1074⟩
  else ⟨signBit x, 0x10000000000000 + fractionField x, (exponentField x : Int) - 1075⟩

/-- The magnitude of an exact value as a quotient of natural numbers. -/
def ExactValue.quotient (d : ExactValue) : Nat × Nat :=
  (d.mantissa * twoPow d.exponent.toNat, twoPow (-d.exponent).toNat)

/-- `2^k` for `-1022 ≤ k ≤ 1023`, written by its exponent field. -/
def powerOfTwo (k : Int) : Float :=
  Float.ofBits (UInt64.ofNat ((k + 1023).toNat * 0x10000000000000))

/-- `num / den` rounded to the nearest natural number, a half going to the even neighbour. -/
def divideToEven (num den : Nat) : Nat :=
  if 2 * (num % den) < den then num / den
  else if den < 2 * (num % den) then num / den + 1
  else num / den + (num / den) % 2

/-- Rounding leaves a whole quotient alone. -/
theorem divideToEven_mul (n : Nat) {den : Nat} (h : 0 < den) : divideToEven (n * den) den = n := by
  simp [divideToEven, Nat.mul_mod_left, h]

/-- The rounded quotient is within half a unit of the quotient. -/
theorem divideToEven_near (num : Nat) {den : Nat} (h : 0 < den) :
    2 * num ≤ 2 * (divideToEven num den * den) + den ∧
      2 * (divideToEven num den * den) ≤ 2 * num + den := by
  have hdiv := Nat.div_add_mod num den
  have hlt := Nat.mod_lt num h
  rw [Nat.mul_comm] at hdiv
  unfold divideToEven
  split
  · omega
  · split
    · rw [Nat.add_mul, Nat.one_mul]; omega
    · rcases Nat.mod_two_eq_zero_or_one (num / den) with he | he <;>
        rw [he, Nat.add_mul] <;> omega

end QueryForecast.Numeric
