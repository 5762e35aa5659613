/-!
# Powers of the written bases

Doubles are written in base two and texts in base ten.
-/

namespace QueryForecast.Numeric

/-- `2^k`. -/
def twoPow (k : Nat) : Nat :=
  Nat.pow 2 k

/-- `10^k`. -/
def tenPow (k : Nat) : Nat :=
  Nat.pow 10 k

theorem twoPow_pos (k : Nat) : 0 < twoPow k :=
  Nat.pow_pos (Nat.zero_lt_succ 1)

theorem tenPow_pos (k : Nat) : 0 < tenPow k :=
  Nat.pow_pos (Nat.zero_lt_succ 9)

end QueryForecast.Numeric
