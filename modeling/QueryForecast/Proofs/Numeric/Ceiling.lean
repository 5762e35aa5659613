import Mathlib.Algebra.Order.Floor.Semiring
import QueryForecast.Proofs.Numeric.Magnitude
import QueryForecast.Proofs.Numeric.Whole

/-!
# Rounding up

A double from `2^53` on is a whole number, and below it every whole number is a double. So cutting off
the fraction of a double and comparing with what is left tells whether it had one, and rounding up by
adding one to the whole part is exact.

* `val_toFloat_wholePart` — the whole part of a double is a double itself.
* `ceiling_eq_ceil` — rounding up is exact below `2^64`.
* `ofNat_mul_bounds` — a fraction of an addressable count is below `2^64`, also after rounding.
* `portion_eq` — so a portion of an addressable count is the product rounded up, within its bounds.
-/

namespace QueryForecast.Numeric

variable {x : Float}

/-- Doubles from `2^53` on are whole numbers. -/
theorem exists_natCast_eq_val (h : 2 ^ (53 : ℤ) ≤ val x) : ∃ n : ℕ, val x = n := by
  obtain ⟨k, j, hx, hk, -⟩ := isDouble_val x
  have hp : (0 : ℚ) < 2 ^ j := by positivity
  by_cases hj : 0 ≤ j
  · obtain ⟨d, rfl⟩ := Int.eq_ofNat_of_zero_le hj
    have hk0 : 0 ≤ k := by
      by_contra hneg
      have : (k : ℚ) < 0 := by exact_mod_cast not_le.1 hneg
      have := mul_neg_of_neg_of_pos this hp
      have : (0 : ℚ) < 2 ^ (53 : ℤ) := by positivity
      linarith
    obtain ⟨n, rfl⟩ := Int.eq_ofNat_of_zero_le hk0
    refine ⟨n * 2 ^ d, ?_⟩
    rw [hx, zpow_natCast]
    push_cast
    rfl
  · have hk' : (k : ℚ) ≤ 2 ^ (53 : ℤ) := by
      have : k ≤ 0x20000000000000 := (abs_le.1 hk).2
      norm_num
      exact_mod_cast this
    have hj' : (2 : ℚ) ^ j ≤ 2 ^ (-1 : ℤ) := zpow_le_zpow_right₀ (by norm_num) (by omega)
    have : (k : ℚ) * 2 ^ j ≤ 2 ^ (53 : ℤ) * 2 ^ (-1 : ℤ) :=
      (mul_le_mul_of_nonneg_right hk' hp.le).trans (mul_le_mul_of_nonneg_left hj' (by positivity))
    rw [← hx] at this
    norm_num at this h
    linarith

/-- **The whole part of a double is a double.** -/
theorem val_toFloat_wholePart (hf : x.isFinite) (h0 : 0 ≤ val x) (hu : val x < 2 ^ (64 : ℤ)) :
    val x.toUInt64.toFloat = wholePart x := by
  obtain ⟨hl, hlt⟩ := wholePart_bounds hf h0 hu
  by_cases hsmall : val x < 2 ^ (53 : ℤ)
  · have hw : wholePart x < 0x20000000000000 := by
      have := hl.trans_lt hsmall
      norm_num at this
      exact_mod_cast this
    rw [← (val_toFloat hw).2]
    exact congrArg (fun n => val (UInt64.toFloat n)) (UInt64.ofNat_toNat).symm
  · obtain ⟨n, hn⟩ := exists_natCast_eq_val (not_lt.1 hsmall)
    have hw : wholePart x = n := by
      rw [hn] at hl hlt
      have h1 : wholePart x ≤ n := by exact_mod_cast hl
      have h2 : n < wholePart x + 1 := by exact_mod_cast hlt
      omega
    have hr := rounds_normalize (wholePart x : ℤ) 0 .positive
    rw [zpow_zero, mul_one, Int.cast_natCast, hw, ← hn] at hr
    have h1023 : |val x| ≤ 2 ^ (1023 : ℤ) := by
      rw [abs_of_nonneg h0]
      exact hu.le.trans (zpow_le_zpow_right₀ (by norm_num) (by norm_num))
    obtain ⟨-, hrounds⟩ := (nearest_packed hr).rounds h1023
    rw [hw, ← hn]
    have he : x.toUInt64.toFloat = packed (.normalize double n 0 .positive) := by
      rw [unpacked_toFloat]
      show packed (.normalize double (wholePart x : ℤ) 0 .positive) = _
      rw [hw]
    rw [he]
    exact hrounds.value_eq (isDouble_val x)

/-- **Rounding up is exact.** -/
theorem ceiling_eq_ceil (hf : x.isFinite) (h0 : 0 ≤ val x) (hu : val x < 2 ^ (64 : ℤ)) :
    ceiling x = ⌈val x⌉₊ := by
  obtain ⟨hl, hlt⟩ := wholePart_bounds hf h0 hu
  unfold ceiling
  have hiff : x.toUInt64.toFloat < x ↔ (wholePart x : ℚ) < val x := by
    rw [lt_iff_val_lt (within_toFloat _).finite hf, val_toFloat_wholePart hf h0 hu]
  symm
  by_cases hw : (wholePart x : ℚ) < val x
  · rw [if_pos (hiff.2 hw), Nat.ceil_eq_iff (Nat.succ_ne_zero _)]
    exact ⟨by simpa using hw, by exact_mod_cast hlt.le⟩
  · rw [if_neg fun h => hw (hiff.1 h), le_antisymm (not_lt.1 hw) hl]
    exact Nat.ceil_natCast _

/-! ## Portions -/

/-- No double lies between one and the number that is `2^-53` below it. -/
theorem val_le_of_lt_one (h : val x < 1) : val x ≤ 1 - 2 ^ (-53 : ℤ) := by
  obtain ⟨k, j, hx, hk, -⟩ := isDouble_val x
  have hp : (0 : ℚ) < 2 ^ j := by positivity
  by_cases hj : -53 ≤ j
  · obtain ⟨d, hd⟩ := Int.le.dest hj
    have hw : val x = ((k * 2 ^ d : ℤ) : ℚ) * 2 ^ (-53 : ℤ) := by
      rw [hx, ← hd, zpow_add₀ two_ne_zero, zpow_natCast]
      push_cast
      ring
    rw [hw] at h ⊢
    have hlt : ((k * 2 ^ d : ℤ) : ℚ) < ((0x20000000000000 : ℤ) : ℚ) := by
      norm_num at h ⊢
      linarith
    have hle : ((k * 2 ^ d : ℤ) : ℚ) ≤ ((0x1fffffffffffff : ℤ) : ℚ) :=
      Int.cast_le.2 (Int.le_of_lt_add_one (Int.cast_lt.1 hlt))
    norm_num at hle ⊢
    linarith
  · have hk' : (k : ℚ) ≤ 0x20000000000000 := by exact_mod_cast (abs_le.1 hk).2
    have hj' : (2 : ℚ) ^ j ≤ 2 ^ (-54 : ℤ) := zpow_le_zpow_right₀ (by norm_num) (by omega)
    have hle : (k : ℚ) * 2 ^ j ≤ 0x20000000000000 * 2 ^ (-54 : ℤ) :=
      (mul_le_mul_of_nonneg_right hk' hp.le).trans (mul_le_mul_of_nonneg_left hj' (by positivity))
    rw [hx]
    norm_num at hle ⊢
    linarith

/-- An addressable count as a double is not negative, and no larger than all that can be addressed. -/
theorem val_ofNat_bounds {n : ℕ} (h : n ≤ 2 ^ 64) : 0 ≤ val (ofNat n) ∧ val (ofNat n) ≤ 2 ^ 64 := by
  refine ⟨?_, (le_abs_self _).trans (within_ofNat h).abs_val_le⟩
  by_cases hn : n < 0x20000000000000
  · rw [(val_ofNat hn).2]
    positivity
  · have h64 : |(n : ℚ)| ≤ 2 ^ (64 : ℤ) := by
      rw [Nat.abs_cast, show (64 : ℤ) = ((64 : ℕ) : ℤ) from rfl, zpow_natCast]
      exact_mod_cast h
    have hr := (nearest_ofNat (by omega)).finite_of_le (isDouble_two_zpow (by norm_num)) h64
      (zpow_lt_zpow_right₀ (by norm_num) (by norm_num))
    exact hr.2.le_value isDouble_zero (Nat.cast_nonneg n)

theorem le_of_float_lt {y : Float} (h : x < y) : x ≤ y := by
  rw [le_iff_compare, (lt_iff_compare x y).1 h]
  rfl

/-- **A fraction of an addressable count is not negative and below `2^64`**, also after rounding. -/
theorem ofNat_mul_bounds {n : ℕ} {fraction : Float} (hn : n ≤ 2 ^ 64)
    (h0 : 0.0 < fraction) (h1 : fraction < 1.0) :
    (ofNat n * fraction).isFinite = true ∧ 0 ≤ val (ofNat n * fraction) ∧
      val (ofNat n * fraction) < 2 ^ (64 : ℤ) := by
  have hzero := val_zero
  have hf : fraction.isFinite = true := isFinite_of_lt_of_le near_one.finite h0 (le_of_float_lt h1)
  rw [lt_iff_val_lt hzero.1 hf, hzero.2] at h0
  rw [lt_iff_val_lt hf near_one.finite, near_one.val_eq] at h1
  have hle := val_le_of_lt_one h1
  obtain ⟨hl, hu⟩ := val_ofNat_bounds hn
  have hw : IsDouble ((0x1fffffffffffff : ℤ) * 2 ^ (11 : ℤ)) :=
    ⟨0x1fffffffffffff, 11, rfl, by decide, by decide⟩
  have hpos : 0 ≤ val (ofNat n) * val fraction := mul_nonneg hl h0.le
  have hprod : val (ofNat n) * val fraction ≤ (0x1fffffffffffff : ℤ) * 2 ^ (11 : ℤ) := by
    calc val (ofNat n) * val fraction ≤ 2 ^ 64 * (1 - 2 ^ (-53 : ℤ)) :=
          mul_le_mul hu hle h0.le (by positivity)
      _ = (0x1fffffffffffff : ℤ) * 2 ^ (11 : ℤ) := by norm_num
  obtain ⟨hfin, hr⟩ := (nearest_mul (within_ofNat hn).finite hf).finite_of_le hw
    (by rwa [abs_of_nonneg hpos])
    (lt_of_lt_of_le (by norm_num) (zpow_le_zpow_right₀ one_le_two (show (64 : ℤ) ≤ 1024 by norm_num)))
  refine ⟨hfin, hr.le_value isDouble_zero hpos, (hr.value_le hw hprod).trans_lt (by norm_num)⟩

/-- **A portion of an addressable count is the product rounded up**, within the bounds. -/
theorem portion_eq {n : ℕ} {fraction : Float} (low high : ℕ) (hn : n ≤ 2 ^ 64)
    (h0 : 0.0 < fraction) (h1 : fraction < 1.0) :
    portion n fraction low high = min (max ⌈val (ofNat n * fraction)⌉₊ low) high := by
  obtain ⟨hf, hl, hu⟩ := ofNat_mul_bounds hn h0 h1
  unfold portion
  rw [ceiling_eq_ceil hf hl hu]

end QueryForecast.Numeric
