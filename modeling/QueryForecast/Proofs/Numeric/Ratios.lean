import QueryForecast.Proofs.Numeric.Ceiling
import QueryForecast.Proofs.Numeric.Extended
import QueryForecast.Proofs.Numeric.Unsigned

/-!
# Ratios of doubles

A ratio of doubles that is above one is so far above it that rounding leaves it there: the greater of two
doubles is more than `2^-53` of the other above it. So whether a ratio is at most one is told by its two
sides, although it is rounded.

* `Nearest.le_of_le`, `Nearest.ge_of_ge` — rounding does not pass over a double, infinite results included.
* `mul_val_lt`, `Rounds.one_lt_value` — the gap between doubles, and what it is enough for.
* `div_le_one_iff` — when a ratio is at most one.
* `isFinite_div_infinity` — a share of an infinite total is zero.
* `one_div_le_one_iff` — when the reciprocal of a defined number is at most one.
-/

namespace QueryForecast.Numeric

open Float.Model Float.Model.UnpackedFloat

variable {v : ℚ} {x y z : Float}

/-! ## Rounding in the order of doubles -/

/-- An infinite result of a negative number is negative infinity. -/
theorem Nearest.infinite_of_neg (h : Nearest v z) (hv : v ≤ 0) (hz : z.isFinite = false) :
    unpacked z = .infinity .negative := by
  have hn := h.neg.infinite (neg_nonneg.2 hv) (by rwa [isFinite_neg_eq])
  rw [unpacked_neg] at hn
  cases hu : unpacked z with
  | infinity s =>
    rw [hu] at hn
    cases s with
    | negative => rfl
    | positive => cases hn
  | notANumber => rw [hu] at hn; cases hn
  | zero s => rw [hu] at hn; cases hn
  | finite s m e hm => rw [hu] at hn; cases hn

/-- **Rounding does not pass over a double**, also when the result is infinite. -/
theorem Nearest.le_of_le (h : Nearest v z) (hx : x.isFinite) (hv : v ≤ val x) : z ≤ x := by
  cases hz : z.isFinite with
  | true => exact (le_iff_val_le hz hx).2 ((h.rounds_of_isFinite hz).value_le (isDouble_val x) hv)
  | false =>
    -- A number that is not negative is within the range, for it is at most a double.
    have hneg : v ≤ 0 := by
      by_contra hpos
      rw [not_le] at hpos
      have hf := (h.finite_of_le (isDouble_val x) (by rwa [abs_of_pos hpos])
        ((le_abs_self _).trans_lt (abs_val_lt x))).1
      rw [hf] at hz
      cases hz
    rw [le_iff_extended h.isNaN (isNaN_of_isFinite hx), extended, h.infinite_of_neg hneg hz]
    exact bot_le

theorem Nearest.ge_of_ge (h : Nearest v z) (hx : x.isFinite) (hv : val x ≤ v) : x ≤ z := by
  cases hz : z.isFinite with
  | true => exact (le_iff_val_le hx hz).2 ((h.rounds_of_isFinite hz).le_value (isDouble_val x) hv)
  | false =>
    have hpos : 0 ≤ v := by
      by_contra hneg
      rw [not_le] at hneg
      have hf := (h.finite_of_le (isDouble_val (-x)) (by rw [abs_of_neg hneg, val_neg]; linarith)
        ((le_abs_self _).trans_lt (abs_val_lt _))).1
      rw [hf] at hz
      cases hz
    exact le_of_float_lt (lt_of_infinite hx (h.infinite hpos hz))

/-! ## Ratios above one -/

/-- Of two whole numbers that are not equal, the greater is more than `2^-53` of the other above it, if
that has at most 53 bits. At `2^53` they have to be two apart. -/
theorem mul_lt_of_whole {k l : ℤ}
    (h : (l < k ∧ l < 0x20000000000000) ∨ l + 1 < k ∧ l ≤ 0x20000000000000) :
    (1 + 2 ^ (-53 : ℤ)) * (l : ℚ) < k := by
  rcases h with ⟨hkl, hl⟩ | ⟨hkl, hl⟩
  · have hl' : (l : ℚ) < 0x20000000000000 := by exact_mod_cast hl
    have hkl' : (l : ℚ) + 1 ≤ k := by exact_mod_cast hkl
    norm_num
    linarith
  · have hl' : (l : ℚ) ≤ 0x20000000000000 := by exact_mod_cast hl
    have hkl' : (l : ℚ) + 1 < k := by exact_mod_cast hkl
    norm_num
    linarith

/-- **The greater of two doubles is more than `2^-53` of the other above it.** -/
theorem mul_val_lt (h : val y < val x) : (1 + 2 ^ (-53 : ℤ)) * val y < val x := by
  -- On the grid of the finer one they are whole numbers, and one of them has 53 bits.
  suffices hgrid : ∃ (k l t : ℤ), val x = k * 2 ^ t ∧ val y = l * 2 ^ t ∧
      ((l < k ∧ l < 0x20000000000000) ∨ l + 1 < k ∧ l ≤ 0x20000000000000) by
    obtain ⟨k, l, t, hx, hy, hkl⟩ := hgrid
    rw [hx, hy, ← mul_assoc]
    exact mul_lt_mul_of_pos_right (mul_lt_of_whole hkl) (by positivity)
  obtain ⟨k, j, hx, hk, -⟩ := isDouble_val x
  obtain ⟨l, i, hy, hl, -⟩ := isDouble_val y
  rw [abs_le] at hk hl
  rcases le_or_gt j i with hji | hij
  · obtain ⟨d, rfl⟩ := Int.le.dest hji
    have hy' : val y = ((l * 2 ^ d : ℤ) : ℚ) * 2 ^ j := by
      rw [hy, zpow_add₀ two_ne_zero, zpow_natCast]
      push_cast
      ring
    rw [hy', hx, mul_lt_mul_iff_of_pos_right (by positivity), Int.cast_lt] at h
    exact ⟨k, l * 2 ^ d, j, hx, hy', .inl ⟨h, h.trans_le hk.2⟩⟩
  · obtain ⟨d, rfl⟩ := Int.lt.dest hij
    have hx' : val x = ((k * 2 ^ d * 2 : ℤ) : ℚ) * 2 ^ i := by
      rw [hx, Nat.succ_eq_add_one, zpow_add₀ two_ne_zero, zpow_natCast, pow_succ]
      push_cast
      ring
    rw [hx', hy, mul_lt_mul_iff_of_pos_right (by positivity), Int.cast_lt] at h
    refine ⟨k * 2 ^ d * 2, l, i, hx', hy, ?_⟩
    rcases hl.2.lt_or_eq with hlt | heq
    · exact .inl ⟨h, hlt⟩
    · -- The other one is even on this grid.
      right
      omega

/-- What is more than half a unit above one is rounded to above one. -/
theorem Rounds.one_lt_value {f : UnpackedFloat} (h : Rounds v f) (hv : 1 + 2 ^ (-53 : ℤ) < v) :
    1 < value f := by
  have hv1 : 1 < v := lt_trans (by norm_num) hv
  have h1 : IsDouble 1 := isDouble_two_zpow (k := 0) (by norm_num)
  refine lt_of_le_of_ne (h.le_value h1 hv1.le) fun hone => ?_
  obtain ⟨s, r, t, rfl, hr, ht, hnear, hn⟩ := h
  have h2 : (0 : ℚ) < 2 ^ t := by positivity
  rw [value_ofUnits t hr, signed_mul] at hone
  have hdist : v - 1 ≤ 2 ^ t / 2 := by
    have hle := mul_le_mul_of_nonneg_right (neg_le_of_abs_le hnear) h2.le
    rw [sub_mul, div_mul_cancel₀ _ h2.ne', ← hone] at hle
    linarith
  rcases le_or_gt t (-52) with ht52 | ht52
  · have hle : (2 : ℚ) ^ t ≤ 2 ^ (-52 : ℤ) := zpow_le_zpow_right₀ one_le_two ht52
    norm_num at hle hv
    linarith
  · -- The unit is that of a number from two on, and then one is too far away.
    have hn := hn.resolve_left (by omega)
    rw [abs_div, abs_of_pos h2, abs_of_pos (by linarith), le_div_iff₀ h2] at hn
    have hle : (2 : ℚ) ^ (-51 : ℤ) ≤ 2 ^ t := zpow_le_zpow_right₀ one_le_two (by omega)
    norm_num at hle
    linarith

/-- Above one, also when the result is infinite. -/
theorem Nearest.one_lt (h : Nearest v z) (hv : 1 + 2 ^ (-53 : ℤ) < v) : 1.0 < z := by
  cases hz : z.isFinite with
  | true =>
    rw [lt_iff_val_lt near_one.finite hz, near_one.val_eq]
    exact (h.rounds_of_isFinite hz).one_lt_value hv
  | false =>
    have hpos : (0 : ℚ) ≤ 1 + 2 ^ (-53 : ℤ) := by positivity
    exact lt_of_infinite near_one.finite (h.infinite (hpos.trans hv.le) hz)

theorem not_le_of_float_lt (hx : x.isNaN = false) (hy : y.isNaN = false) (h : x < y) : ¬ y ≤ x := by
  rw [le_iff_extended hy hx, not_le]
  exact (lt_iff_extended hx hy).1 h

/-- **A ratio is at most one exactly when its numerator is at most its denominator.** -/
theorem div_le_one_iff (hx : x.isFinite) (hy : y.isFinite) (h0 : 0 < val y) :
    x / y ≤ 1.0 ↔ x ≤ y := by
  have hn := nearest_div hx hy h0.ne'
  rw [le_iff_val_le hx hy]
  constructor
  · intro hle
    by_contra hlt
    rw [not_le] at hlt
    have hgap : 1 + 2 ^ (-53 : ℤ) < val x / val y := (lt_div_iff₀ h0).2 (mul_val_lt hlt)
    exact not_le_of_float_lt (isNaN_of_isFinite near_one.finite) hn.isNaN (hn.one_lt hgap) hle
  · intro hle
    refine hn.le_of_le near_one.finite ?_
    rw [near_one.val_eq]
    exact (div_le_one h0).2 hle

/-! ## Shares of an infinite total -/

theorem div_eq (x y : Float) :
    x / y = packed (UnpackedFloat.div double (unpacked x) (unpacked y)) :=
  rfl

theorem isFinite_div_infinity {s : Sign} (hx : x.isFinite) (hy : unpacked y = .infinity s) :
    (x / y).isFinite = true ∧ val (x / y) = 0 := by
  have hzero (s' : Sign) : unpacked (packed (.zero s')) = .zero s' :=
    unpacked_packed (f := .zero s') trivial
  have hdiv : ∃ s', unpacked (x / y) = .zero s' := by
    rw [isFinite_eq] at hx
    rw [div_eq, hy]
    cases hu : unpacked x with
    | infinity s' => rw [hu] at hx; cases hx
    | notANumber => rw [hu] at hx; cases hx
    | zero s' => exact ⟨_, hzero _⟩
    | finite s' m e hm => exact ⟨_, hzero _⟩
  obtain ⟨s', hs⟩ := hdiv
  rw [isFinite_eq, val, hs]
  exact ⟨rfl, rfl⟩

/-! ## Reciprocals -/

/-- One more than a number is zero only without rounding, and then it is zero without a sign. -/
theorem one_add_eq_zero (hx : x.isFinite) (hf : (1.0 + x).isFinite) (h : val (1.0 + x) = 0) :
    1.0 + x = 0.0 := by
  have hr := (nearest_add near_one.finite hx).rounds_of_isFinite hf
  rw [near_one.val_eq] at hr
  have hleast : (0 : ℚ) < 2 ^ (-1074 : ℤ) := by positivity
  have hd : IsDouble (2 ^ (-1074 : ℤ)) := isDouble_two_zpow (le_refl _)
  have hv : val x = -1 := by
    rcases lt_trichotomy (val (-x)) (val 1.0) with hlt | heq | hgt
    · have hgap := le_val_sub_val hlt
      rw [near_one.val_eq, val_neg, sub_neg_eq_add] at hgap
      exact absurd h (hleast.trans_le (hr.le_value hd hgap)).ne'
    · rw [near_one.val_eq, val_neg] at heq
      linarith
    · have hgap := le_val_sub_val hgt
      rw [near_one.val_eq, val_neg] at hgap
      have hle := hr.value_le hd.neg (by linarith)
      exact absurd h (hle.trans_lt (neg_lt_zero.2 hleast)).ne
  -- So the number is minus one, and the sum is that of two constants.
  have habs : x.abs = 1.0 := by
    refine eq_of_val_eq (by rwa [isFinite_abs]) near_one.finite (signBit_abs hx) rfl ?_
    rw [val_abs, hv, near_one.val_eq, abs_neg, abs_one]
  have hx1 : x = -1.0 := by
    have hs := signed_abs hx
    rw [habs] at hs
    split at hs
    · exact hs.symm
    · rw [← hs, near_one.val_eq] at hv
      norm_num at hv
  rw [hx1]
  rfl

/-- **The reciprocal of a defined number is defined**, and it is at most one unless the number is from
zero on and below one. A zero with a sign is left out. -/
theorem one_div_le_one_iff (hx : x.isNaN = false) (h0 : x.isFinite = true → val x = 0 → x = 0.0) :
    (1.0 / x).isNaN = false ∧ (1.0 / x ≤ 1.0 ↔ ¬ (0.0 ≤ x ∧ x < 1.0)) := by
  have h1 := near_one
  rcases finite_or_infinite hx with hf | ⟨s, hs⟩
  · rw [le_iff_val_le val_zero.1 hf, lt_iff_val_lt hf h1.finite, val_zero.2, h1.val_eq]
    rcases lt_trichotomy (val x) 0 with hneg | hz | hpos
    · have hn := nearest_div h1.finite hf hneg.ne
      refine ⟨hn.isNaN, iff_of_true (hn.le_of_le h1.finite ?_) fun h => h.1.not_gt hneg⟩
      rw [h1.val_eq]
      exact (div_neg_of_pos_of_neg one_pos hneg).le.trans zero_le_one
    · rw [h0 hf hz, val_zero.2]
      exact ⟨by decide, iff_of_false (by decide) (by norm_num)⟩
    · have hn := nearest_div h1.finite hf hpos.ne'
      refine ⟨hn.isNaN, ?_⟩
      rw [div_le_one_iff h1.finite hf hpos, le_iff_val_le h1.finite hf, h1.val_eq, ← not_lt]
      exact not_congr ⟨fun h => ⟨hpos.le, h⟩, And.right⟩
  · obtain ⟨hf, hv⟩ := isFinite_div_infinity h1.finite hs
    refine ⟨isNaN_of_isFinite hf, iff_of_true ?_ ?_⟩
    · rw [le_iff_val_le hf h1.finite, hv, h1.val_eq]
      exact zero_le_one
    · rw [le_iff_extended (isNaN_of_isFinite val_zero.1) hx,
        lt_iff_extended hx (isNaN_of_isFinite h1.finite), extended_of_isFinite val_zero.1,
        extended_of_isFinite h1.finite, extended, hs]
      rintro ⟨hl, hu⟩
      cases s with
      | negative => exact absurd hl (WithBot.bot_lt_coe _).not_ge
      | positive => exact absurd hu le_top.not_gt

end QueryForecast.Numeric
