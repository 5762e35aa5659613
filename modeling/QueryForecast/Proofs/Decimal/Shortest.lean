import QueryForecast.Decimal.Shortest
import QueryForecast.Proofs.Decimal.Rounding
import QueryForecast.Proofs.Numeric.ExactRounding

/-!
# The shortest decimal is read back

The search for the shortest decimal ends on a grid fine enough to have a point around the double:
seventeen digits are always enough. Whatever point it ends on, the bounds of the interval say that it
lies around the double, so that it is read as the double.

* `onGrid_div` — exact division by a power of ten.
* `Interval.contains_iff` — the check of a grid point in terms of numbers.
* `leadingExponent_le` — the search does not start above the leading digit.
* `denotes_shortest` — the decimal that is found denotes the double.
* `toFloat_shortest` — and is read as it.
-/

namespace QueryForecast.Decimal

open Numeric Float.Model Float.Model.UnpackedFloat

/-! ## Grids -/

theorem cast_tenPow (n : ℕ) : (tenPow n : ℚ) = 10 ^ n := by
  simp [tenPow]

theorem zpow_eq_div {b : ℚ} (hb : b ≠ 0) (k : ℤ) : b ^ k = b ^ k.toNat / b ^ (-k).toNat := by
  rw [← zpow_natCast, ← zpow_natCast, ← zpow_sub₀ hb]
  congr 1
  omega

/-- The magnitude of an exact value. -/
def magnitudeOf (d : ExactValue) : ℚ :=
  d.mantissa * 2 ^ d.exponent

theorem onGrid_den_pos (d : ExactValue) (k : ℤ) : 0 < (onGrid d k).2 :=
  Nat.mul_pos (twoPow_pos _) (tenPow_pos _)

/-- **Dividing by a power of ten is exact as a quotient.** -/
theorem onGrid_div (d : ExactValue) (k : ℤ) :
    ((onGrid d k).1 : ℚ) / (onGrid d k).2 = magnitudeOf d / 10 ^ k := by
  show ((d.mantissa * twoPow d.exponent.toNat * tenPow (-k).toNat : ℕ) : ℚ) /
    (twoPow (-d.exponent).toNat * tenPow k.toNat : ℕ) = _
  unfold magnitudeOf
  rw [zpow_eq_div (by norm_num) d.exponent, zpow_eq_div (by norm_num : (10 : ℚ) ≠ 0) k]
  push_cast
  rw [ExactValue.cast_twoPow, ExactValue.cast_twoPow, cast_tenPow, cast_tenPow]
  field_simp

theorem onGrid_le_iff (d : ExactValue) (k : ℤ) (n : ℕ) :
    (onGrid d k).1 ≤ n * (onGrid d k).2 ↔ magnitudeOf d ≤ n * 10 ^ k := by
  have hd : (0 : ℚ) < (onGrid d k).2 := by exact_mod_cast onGrid_den_pos d k
  rw [← div_le_iff₀ (by positivity), ← onGrid_div, div_le_iff₀ hd]
  exact_mod_cast Iff.rfl

theorem le_onGrid_iff (d : ExactValue) (k : ℤ) (n : ℕ) :
    n * (onGrid d k).2 ≤ (onGrid d k).1 ↔ n * 10 ^ k ≤ magnitudeOf d := by
  have hd : (0 : ℚ) < (onGrid d k).2 := by exact_mod_cast onGrid_den_pos d k
  rw [← le_div_iff₀ (by positivity), ← onGrid_div, le_div_iff₀ hd]
  exact_mod_cast Iff.rfl

/-! ## The leading digit -/

theorem climb_le {d : ExactValue} {steps : ℕ} {k : ℤ} (h : (10 : ℚ) ^ k ≤ magnitudeOf d) :
    (10 : ℚ) ^ climb d steps k ≤ magnitudeOf d := by
  induction steps generalizing k with
  | zero => exact h
  | succ steps ih =>
    unfold climb
    dsimp only
    split
    · rename_i hle
      have hone := (le_onGrid_iff d (k + 1) 1).1 (by rwa [Nat.one_mul])
      rw [Nat.cast_one, one_mul] at hone
      exact ih hone
    · exact h

/-- The start of the climb is below a power of two. -/
theorem pow_ten_le_pow_two {b : ℤ} (h : -8192 ≤ b) :
    (10 : ℚ) ^ (b * 1233 / 4096 - 2) ≤ 2 ^ b := by
  have hup : ((10 ^ 1233 : ℕ) : ℚ) ≤ ((2 ^ 4096 : ℕ) : ℚ) := Nat.cast_le.2 (by decide +kernel)
  have hdown : ((2 ^ 4096 : ℕ) : ℚ) ≤ ((10 ^ 1234 : ℕ) : ℚ) := Nat.cast_le.2 (by decide +kernel)
  rw [Nat.cast_pow, Nat.cast_pow, Nat.cast_ofNat, Nat.cast_ofNat] at hup hdown
  -- Both sides are compared after raising them to the power 4096.
  rw [← pow_le_pow_iff_left₀ (by positivity) (by positivity) (by norm_num : 4096 ≠ 0), ← zpow_natCast,
    ← zpow_natCast, ← zpow_mul, ← zpow_mul]
  rcases le_or_gt 0 b with hb | hb
  · obtain ⟨n, rfl⟩ := Int.eq_ofNat_of_zero_le hb
    calc (10 : ℚ) ^ ((n * 1233 / 4096 - 2 : ℤ) * (4096 : ℕ)) ≤ 10 ^ ((1233 * n : ℕ) : ℤ) :=
          zpow_le_zpow_right₀ (by norm_num) (by push_cast; omega)
      _ = (10 ^ 1233) ^ n := by rw [zpow_natCast, pow_mul]
      _ ≤ (2 ^ 4096) ^ n := pow_le_pow_left₀ (by positivity) hup n
      _ = 2 ^ ((n : ℤ) * (4096 : ℕ)) := by
        rw [← pow_mul, ← zpow_natCast, Nat.cast_mul, mul_comm (n : ℤ)]
  · obtain ⟨n, hn⟩ := Int.eq_ofNat_of_zero_le (show 0 ≤ -b by omega)
    obtain rfl : b = -(n : ℤ) := by omega
    calc (10 : ℚ) ^ ((-n * 1233 / 4096 - 2 : ℤ) * (4096 : ℕ)) ≤ 10 ^ (-((1234 * n : ℕ) : ℤ)) :=
          zpow_le_zpow_right₀ (by norm_num) (by push_cast; omega)
      _ = ((10 ^ 1234) ^ n)⁻¹ := by rw [zpow_neg, zpow_natCast, pow_mul]
      _ ≤ ((2 ^ 4096) ^ n)⁻¹ := inv_anti₀ (by positivity) (pow_le_pow_left₀ (by positivity) hdown n)
      _ = 2 ^ (-(n : ℤ) * (4096 : ℕ)) := by
        rw [← pow_mul, ← zpow_natCast, ← zpow_neg, Nat.cast_mul, mul_comm, neg_mul]

/-- **The search does not start above the leading digit.** -/
theorem leadingExponent_le {d : ExactValue} (hm : d.mantissa ≠ 0) (he : -1074 ≤ d.exponent) :
    (10 : ℚ) ^ leadingExponent d ≤ magnitudeOf d := by
  refine climb_le ((pow_ten_le_pow_two (by omega)).trans ?_)
  have hlog : ((2 ^ d.mantissa.log2 : ℕ) : ℚ) ≤ d.mantissa := by exact_mod_cast Nat.log2_self_le hm
  rw [zpow_add₀ (by norm_num), zpow_natCast]
  push_cast at hlog
  exact mul_le_mul_of_nonneg_right hlog (by positivity)

/-! ## Intervals -/

namespace Interval

variable {i : Interval} {tie : Tie} {n : ℕ} {k : ℤ}

/-- The lower bound of an interval. -/
def lower (i : Interval) : ℚ :=
  magnitudeOf { i.value with mantissa := i.value.mantissa - i.below }

/-- The upper bound of an interval. -/
def upper (i : Interval) : ℚ :=
  magnitudeOf { i.value with mantissa := i.value.mantissa + i.above }

/-- **The check of a grid point compares it with the bounds.** -/
theorem contains_iff :
    i.contains n k = true ↔
      if i.closed then i.lower ≤ n * 10 ^ k ∧ n * 10 ^ k ≤ i.upper
      else i.lower < n * 10 ^ k ∧ n * 10 ^ k < i.upper := by
  have hl := onGrid_le_iff { i.value with mantissa := i.value.mantissa - i.below } k n
  have hl' := le_onGrid_iff { i.value with mantissa := i.value.mantissa - i.below } k n
  have hu := onGrid_le_iff { i.value with mantissa := i.value.mantissa + i.above } k n
  have hu' := le_onGrid_iff { i.value with mantissa := i.value.mantissa + i.above } k n
  unfold contains lower upper
  dsimp only
  split
  · rw [decide_eq_true_iff, ← hl, ← hu']
    rfl
  · rw [decide_eq_true_iff, ← not_le, ← not_le, ← not_le, ← not_le, ← hl', ← hu]
    rfl

theorem contains_of_nearest? (h : i.nearest? tie k = some n) : i.contains n k = true := by
  unfold nearest? at h
  dsimp only at h
  split at h
  · rename_i hdown
    split at h
    · rename_i hup
      rw [← Option.some.inj h]
      exact hup.1
    · rw [← Option.some.inj h]
      exact hdown
  · split at h
    · rename_i hup
      rw [← Option.some.inj h]
      exact hup
    · cases h

/-- A grid that is finer than the lower half of an interval has a point in it. -/
theorem isSome_nearest? (hl : i.lower + 10 ^ k ≤ magnitudeOf i.value)
    (hu : magnitudeOf i.value < i.upper) : (i.nearest? tie k).isSome = true := by
  have hdown : i.contains ((onGrid i.value k).1 / (onGrid i.value k).2) k = true := by
    have hle := (le_onGrid_iff i.value k _).1 (Nat.div_mul_le_self _ _)
    have hlt := (not_congr (le_onGrid_iff i.value k
      ((onGrid i.value k).1 / (onGrid i.value k).2 + 1))).1 (by
        rw [not_le, mul_comm]
        exact Nat.lt_mul_div_succ _ (onGrid_den_pos _ _))
    rw [not_le] at hlt
    push_cast at hlt
    rw [add_mul, one_mul] at hlt
    rw [contains_iff]
    split
    · constructor <;> linarith
    · constructor <;> linarith
  unfold nearest?
  dsimp only
  rw [if_pos hdown]
  split <;> rfl

/-- **The search ends on a point of the interval** when the last grid that it tries has one. -/
theorem contains_search {tries : ℕ} (h : (i.nearest? tie (k - tries)).isSome = true) :
    i.contains (i.search tie (tries + 1) k).digits (i.search tie (tries + 1) k).exponent = true := by
  induction tries generalizing k with
  | zero =>
    obtain ⟨n, hn⟩ := Option.isSome_iff_exists.1 h
    rw [Nat.cast_zero, sub_zero] at hn
    unfold search
    rw [hn]
    exact contains_of_nearest? hn
  | succ tries ih =>
    unfold search
    cases hn : i.nearest? tie k with
    | some n => exact contains_of_nearest? hn
    | none =>
      refine ih ?_
      rwa [show k - 1 - (tries : ℤ) = k - ((tries + 1 : ℕ) : ℤ) by push_cast; ring]

end Interval

theorem stripZeros_rat (fuel : ℕ) (y : Numeral) : (stripZeros fuel y).rat = y.rat := by
  induction fuel generalizing y with
  | zero => rfl
  | succ fuel ih =>
    unfold stripZeros
    split
    · rename_i h
      rw [ih]
      have hd : (y.digits : ℚ) = (y.digits / 10 : ℕ) * 10 := by
        exact_mod_cast (Nat.div_mul_cancel (Nat.dvd_of_mod_eq_zero h.2)).symm
      unfold Numeral.rat
      rw [hd, zpow_add₀ (by norm_num), zpow_one]
      ring
    · rfl

/-! ## Doubles -/

variable {x : Float}

/-- The parts of a finite double are its exact value. -/
theorem unpacked_eq_exact (hx : x.isFinite = true) :
    ((ExactValue.ofFloat x).mantissa = 0 ∧ ∃ s, unpacked x = .zero s) ∨
      ∃ s hm, unpacked x =
        .finite s (ExactValue.ofFloat x).mantissa (ExactValue.ofFloat x).exponent hm := by
  have hparts := unpacked_eq x
  rw [isFinite_eq, hparts] at hx
  unfold ExactValue.ofFloat
  rcases ofFields_cases hx with ⟨he, hm, hf⟩ | ⟨he, hm, hf⟩ | ⟨he, hm, hf⟩
  · rw [if_pos he]
    exact .inl ⟨hm, _, hparts.trans hf⟩
  · rw [if_pos he]
    exact .inr ⟨_, hm, hparts.trans hf⟩
  · rw [if_neg he.ne']
    exact .inr ⟨_, hm, hparts.trans hf⟩

theorem fields_abs (hx : x.isFinite = true) :
    exponentField x.abs = exponentField x ∧ fractionField x.abs = fractionField x := by
  have hparts := unpacked_eq x
  have hf := hx
  rw [isFinite_eq, hparts] at hf
  have habs : (ofFields (signOf (signBit x)) (exponentField x) (fractionField x)).abs =
      ofFields .positive (exponentField x) (fractionField x) := by
    unfold ofFields
    split
    · split <;> rfl
    · split
      · split <;> rfl
      · rfl
  have hfin : (ofFields .positive (exponentField x) (fractionField x)).isFinite = true := by
    rw [← habs]
    rcases ofFields_cases hf with ⟨-, -, h⟩ | ⟨-, _, h⟩ | ⟨-, _, h⟩ <;> rw [h] <;> rfl
  have h := unpacked_eq x.abs
  rw [unpacked_abs, hparts, habs] at h
  obtain ⟨-, he, hm⟩ := fields_eq_of_ofFields_eq (fractionField_lt x) (fractionField_lt _) hfin h
  exact ⟨he.symm, hm.symm⟩

/-- The interval of a double, by its parts. -/
theorem Interval.ofFloat_abs (hx : x.isFinite = true) :
    Interval.ofFloat x.abs =
      { value := ⟨false, 4 * (ExactValue.ofFloat x).mantissa, (ExactValue.ofFloat x).exponent - 2⟩
        below := if fractionField x = 0 ∧ 1 < exponentField x then 1 else 2
        above := 2
        closed := (ExactValue.ofFloat x).mantissa % 2 = 0 } := by
  obtain ⟨he, hm⟩ := fields_abs hx
  unfold Interval.ofFloat ExactValue.ofFloat
  rw [he, hm]
  dsimp only
  by_cases h0 : exponentField x = 0
  · simp only [if_pos h0]
  · simp only [if_neg h0]

/-- The lower half of an interval is half the gap below the double. -/
theorem below_eq_halfGapBelow (x : Float) :
    ((if fractionField x = 0 ∧ 1 < exponentField x then 1 else 2 : ℕ) : ℚ) / 4 =
      halfGapBelow (ExactValue.ofFloat x).mantissa (ExactValue.ofFloat x).exponent := by
  have hm := fractionField_lt x
  have hiff : fractionField x = 0 ∧ 1 < exponentField x ↔
      (ExactValue.ofFloat x).mantissa = 0x10000000000000 ∧
        -1074 < (ExactValue.ofFloat x).exponent := by
    unfold ExactValue.ofFloat
    split
    · dsimp only
      omega
    · dsimp only
      omega
  unfold halfGapBelow
  by_cases h : fractionField x = 0 ∧ 1 < exponentField x
  · rw [if_pos h, if_pos (hiff.1 h)]
    norm_num
  · rw [if_neg h, if_neg (mt hiff.2 h)]
    norm_num

section

variable {m b : ℕ} {e : ℤ}

theorem zpow_sub_two (e : ℤ) : (2 : ℚ) ^ (e - 2) = 2 ^ e / 4 := by
  rw [zpow_sub₀ (by norm_num)]
  norm_num

theorem Interval.lower_eq (hb : b ≤ 4 * m) (closed : Bool) :
    Interval.lower ⟨⟨false, 4 * m, e - 2⟩, b, 2, closed⟩ = (m - b / 4) * 2 ^ e := by
  unfold Interval.lower magnitudeOf
  dsimp only
  rw [zpow_sub_two, Nat.cast_sub hb]
  push_cast
  ring

theorem Interval.upper_eq (closed : Bool) :
    Interval.upper ⟨⟨false, 4 * m, e - 2⟩, b, 2, closed⟩ = (m + 1 / 2) * 2 ^ e := by
  unfold Interval.upper magnitudeOf
  dsimp only
  rw [zpow_sub_two]
  push_cast
  ring

/-- The points of an interval lie around its double. -/
theorem Interval.around_of_contains {n : ℕ} {k : ℤ} (hb : b ≤ 4 * m)
    (hgap : (b : ℚ) / 4 = halfGapBelow m e)
    (h : Interval.contains ⟨⟨false, 4 * m, e - 2⟩, b, 2, m % 2 = 0⟩ n k = true) :
    Around m e (n * 10 ^ k) := by
  have h2 : (0 : ℚ) < 2 ^ e := by positivity
  rw [Interval.contains_iff, Interval.lower_eq hb, Interval.upper_eq, hgap] at h
  split at h
  · rename_i hc
    exact ⟨(le_div_iff₀ h2).2 h.1, (div_le_iff₀ h2).2 h.2, fun hodd => by
      have := of_decide_eq_true hc
      omega⟩
  · have hl := (lt_div_iff₀ h2).2 h.1
    have hu := (div_lt_iff₀ h2).2 h.2
    exact ⟨hl.le, hu.le, fun _ => ⟨hl, hu⟩⟩

/-- **Seventeen digits are enough**: a step of the last grid is no longer than the lower half of the
interval. -/
theorem Interval.isSome_nearest?_last (hm53 : m < 0x20000000000000) (hb : b ≤ 4 * m)
    (hb1 : 1 ≤ b) {k : ℤ} (hk : (10 : ℚ) ^ k ≤ m * 2 ^ e) (tie : Tie) (closed : Bool) :
    (Interval.nearest? ⟨⟨false, 4 * m, e - 2⟩, b, 2, closed⟩ tie (k - (17 : ℕ))).isSome = true := by
  have h2 : (0 : ℚ) < 2 ^ e := by positivity
  have hvalue : magnitudeOf ⟨false, 4 * m, e - 2⟩ = m * 2 ^ e := by
    unfold magnitudeOf
    dsimp only
    rw [zpow_sub_two]
    push_cast
    ring
  have hstep : (10 : ℚ) ^ (k - (17 : ℕ)) ≤ 1 / 4 * 2 ^ e := by
    have hmq : (m : ℚ) ≤ ((0x20000000000000 : ℕ) : ℚ) := by exact_mod_cast hm53.le
    have hk' : (10 : ℚ) ^ k ≤ 0x20000000000000 * 2 ^ e :=
      hk.trans (mul_le_mul_of_nonneg_right (by exact_mod_cast hmq) h2.le)
    rw [zpow_sub₀ (by norm_num), zpow_natCast, div_le_iff₀ (by positivity)]
    calc (10 : ℚ) ^ k ≤ 0x20000000000000 * 2 ^ e := hk'
      _ ≤ 1 / 4 * 10 ^ 17 * 2 ^ e := mul_le_mul_of_nonneg_right (by norm_num) h2.le
      _ = 1 / 4 * 2 ^ e * 10 ^ 17 := by ring
  have hbq : (1 : ℚ) ≤ b := by exact_mod_cast hb1
  apply Interval.isSome_nearest?
  · rw [Interval.lower_eq hb, hvalue]
    calc ((m : ℚ) - b / 4) * 2 ^ e + 10 ^ (k - (17 : ℕ)) ≤ (m - b / 4) * 2 ^ e + b / 4 * 2 ^ e := by
          have : (1 : ℚ) / 4 * 2 ^ e ≤ b / 4 * 2 ^ e :=
            mul_le_mul_of_nonneg_right (by linarith) h2.le
          linarith
      _ = m * 2 ^ e := by ring
  · rw [Interval.upper_eq, hvalue]
    exact mul_lt_mul_of_pos_right (by linarith) h2

end

/-- **The decimal that is found denotes the double.** -/
theorem denotes_shortest (hx : x.isFinite = true) (tie : Tie) : Denotes (shortest tie x).rat x := by
  unfold Denotes
  rcases unpacked_eq_exact hx with ⟨h0, s, hu⟩ | ⟨s, hm, hu⟩
  · rw [hu]
    show (shortest tie x).rat = 0
    unfold shortest
    dsimp only
    rw [if_pos h0]
    simp [Numeral.rat]
  · have hfits := fits_unpacked x
    rw [hu] at hfits ⊢
    obtain ⟨hm53, he, -⟩ := hfits
    show Around _ _ (shortest tie x).rat
    unfold shortest
    dsimp only
    rw [if_neg hm.ne', stripZeros_rat, Interval.ofFloat_abs hx]
    have hgap := below_eq_halfGapBelow x
    generalize hbelow : (if fractionField x = 0 ∧ 1 < exponentField x then 1 else 2) = b at hgap ⊢
    have hb : 1 ≤ b ∧ b ≤ 2 := by
      rw [← hbelow]
      split <;> omega
    exact Interval.around_of_contains (by omega) hgap (Interval.contains_search
      (Interval.isSome_nearest?_last hm53 (by omega) hb.1 (leadingExponent_le hm.ne' he) tie _))

/-- **The shortest decimal of a double is read as the double.** -/
theorem toFloat_shortest (hx : x.isFinite = true) (tie : Tie) :
    toFloat (signBit x) (shortest tie x) = x :=
  toFloat_of_denotes hx (denotes_shortest hx tie)

example : shortest .toEven (0.1 + 0.2) = ⟨30000000000000004, -17⟩ := by decide +kernel

end QueryForecast.Decimal
