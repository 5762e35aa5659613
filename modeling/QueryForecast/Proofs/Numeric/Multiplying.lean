import QueryForecast.Proofs.Numeric.Nearest
import QueryForecast.Proofs.Numeric.Unsigned

/-!
# Multiplying keeps the order

A product is rounded to a double that no other one is nearer to. So of two products the one that is
greater before rounding is not the smaller one afterwards.

* `Rounds.abs_value_sub_le_abs` — no double is nearer to a number than the one it is rounded to.
* `Rounds.value_le_value` — rounding keeps the order.
* `val_mul_le_val_mul` — fractions of a double that is not negative.
-/

namespace QueryForecast.Numeric

open Float.Model Float.Model.UnpackedFloat

namespace Rounds

variable {v w : ℚ} {f g : UnpackedFloat}

theorem abs_value_sub_le_of_le (h : Rounds v f) (hw : IsDouble w) (hvw : v ≤ w) :
    |value f - v| ≤ |w - v| := by
  obtain ⟨s, r, t, rfl, hr, ht, hnear, hn⟩ := h
  have h2 : (0 : ℚ) < 2 ^ t := by positivity
  obtain ⟨b, hvb, hbw⟩ := exists_units_between hn hw hvw
  obtain ⟨n, hsn⟩ := exists_signed_eq s r
  rw [value_ofUnits t hr, signed_mul, hsn]
  rw [hsn] at hnear
  have hunits : |(n : ℚ) - v / 2 ^ t| ≤ b - v / 2 ^ t := by
    by_cases hnb : n = b
    · rw [hnb, abs_of_nonneg (sub_nonneg.2 hvb)]
    · have hapart := one_le_abs_sub_add hnb (v / 2 ^ t)
      rw [abs_of_nonneg (sub_nonneg.2 hvb)] at hapart
      linarith
  have hscale (u : ℚ) : u * 2 ^ t - v = (u - v / 2 ^ t) * 2 ^ t := by
    rw [sub_mul, div_mul_cancel₀ _ h2.ne']
  rw [abs_of_nonneg (sub_nonneg.2 hvw), hscale, abs_mul, abs_of_pos h2,
    ← div_mul_cancel₀ w h2.ne', hscale]
  exact mul_le_mul_of_nonneg_right (hunits.trans (sub_le_sub_right hbw _)) h2.le

/-- **No double is nearer to a number than the one it is rounded to.** -/
theorem abs_value_sub_le_abs (h : Rounds v f) (hw : IsDouble w) : |value f - v| ≤ |w - v| := by
  rcases le_total v w with hvw | hwv
  · exact h.abs_value_sub_le_of_le hw hvw
  · have hneg := h.neg.abs_value_sub_le_of_le hw.neg (neg_le_neg hwv)
    rwa [value_neg, neg_sub_neg, neg_sub_neg, abs_sub_comm v, abs_sub_comm v] at hneg

/-- **Rounding keeps the order.** -/
theorem value_le_value (h : Rounds v f) (h' : Rounds w g) (hvw : v < w) : value f ≤ value g := by
  by_contra hlt
  rw [not_le] at hlt
  -- Two doubles in the wrong order leave no room between the two numbers.
  have hv := add_le_two_mul hlt (h.abs_value_sub_le_abs (isDouble_value h'.fits))
  have hw := two_mul_le_add hlt (h'.abs_value_sub_le_abs (isDouble_value h.fits))
  linarith

end Rounds

variable {x y z : Float}

/-- A positive double has no sign. -/
theorem signBit_of_val_pos (hx : x.isFinite) (h : 0 < val x) : signBit x = false := by
  cases hs : signBit x with
  | false => rfl
  | true =>
    rw [val_eq_magnitude hx, hs] at h
    exact absurd (magnitude_nonneg _ _) (not_le.2 (neg_pos.1 h))

theorem val_mul_eq_zero (hx : x.isFinite) (hy : y.isFinite) (h : val x * val y = 0) :
    val (x * y) = 0 := by
  obtain ⟨-, hr⟩ := (nearest_mul hx hy).rounds (by rw [h, abs_zero]; positivity)
  rw [h] at hr
  exact hr.value_eq isDouble_zero

/-- **A greater fraction of a double that is not negative is not smaller.** -/
theorem val_mul_le_val_mul (hx : x.isFinite) (h0 : 0 ≤ val x) (hy : y.isFinite) (hy0 : 0 ≤ val y)
    (hz : z.isFinite) (hz1 : val z ≤ 1) (h : val y ≤ val z) : val (x * y) ≤ val (x * z) := by
  obtain ⟨hfy, -⟩ := mul_le_left hx hy h0 hy0 (h.trans hz1)
  obtain ⟨hfz, hpos, -⟩ := mul_le_left hx hz h0 (hy0.trans h) hz1
  by_cases hzero : val x * val y = 0
  · rwa [val_mul_eq_zero hx hy hzero]
  · have hxpos : 0 < val x := lt_of_le_of_ne h0 (left_ne_zero_of_mul hzero).symm
    have hypos : 0 < val y := lt_of_le_of_ne hy0 (right_ne_zero_of_mul hzero).symm
    rcases h.lt_or_eq with hlt | heq
    · exact ((nearest_mul hx hy).rounds_of_isFinite hfy).value_le_value
        ((nearest_mul hx hz).rounds_of_isFinite hfz) (mul_lt_mul_of_pos_left hlt hxpos)
    · rw [eq_of_val_eq hy hz (signBit_of_val_pos hy hypos) (signBit_of_val_pos hz (heq ▸ hypos)) heq]

end QueryForecast.Numeric
