import QueryForecast.Numeric.Logarithm
import QueryForecast.Proofs.Numeric.Exponential
import QueryForecast.Proofs.Numeric.Halfway

/-!
# The logarithm of a number is a number

`logOnePlus` takes the power of two out of its argument, evaluates a rational function of what is
left, and adds the multiple of `ln 2`. For arguments from zero up none of these steps leaves the range
of doubles; as for the exponential, the bounds are far from tight.

* `near_logPolynomial`, `near_logCentral` — the rational function on reduced arguments.
* `val_withExponent` — what is left of a number when its power of two is taken out.
* `isFinite_logReduced` — the logarithm by way of the power of two.
* `isFinite_logOnePlus` — the logarithm of one plus a finite number from zero up is finite.
-/

namespace QueryForecast.Numeric

open Float.Model Float.Model.UnpackedFloat

/-- A product plus a number stays in the range of doubles as long as the exact result does. -/
theorem isFinite_fused_of_near {p q r : ℚ} {x y z : Float} (hx : Near 0 p x) (hy : Near 0 q y)
    (hz : Near 0 r z) (h : p * q + r ≤ 2 ^ (1023 : ℤ)) : (fused x y z).isFinite = true := by
  refine ((nearest_fused hx.finite hy.finite hz.finite).rounds ?_).1
  have hm := hx.abs_mul_le hy
  have hr := hz.abs_val_le
  rw [abs_zero, zero_add] at hr
  calc |val x * val y + val z| ≤ |val x * val y| + |val z| := abs_add_le _ _
    _ ≤ p * q + r := add_le_add hm hr
    _ ≤ 2 ^ (1023 : ℤ) := h

theorem le_two_zpow_of_le {b : ℚ} (h : b ≤ 2 ^ (64 : ℤ)) : b ≤ 2 ^ (1023 : ℤ) :=
  h.trans (zpow_le_zpow_right₀ (by norm_num) (by norm_num))

/-! ## Reduced arguments -/

/-- The polynomial is small for small arguments. -/
theorem near_logPolynomial {z : Float} (hz : Near 0 (1 / 4) z) : Near 0 1 (logPolynomial z) := by
  have c1 : Near 0 (1 / 2 ^ 0) (Float.ofBits 0x3fe5555555555593) :=
    near_of_exponentField (by decide) (by omega)
  have c2 : Near 0 (1 / 2 ^ 1) (Float.ofBits 0x3fd999999997fa04) :=
    near_of_exponentField (by decide) (by omega)
  have c3 : Near 0 (1 / 2 ^ 1) (Float.ofBits 0x3fd2492494229359) :=
    near_of_exponentField (by decide) (by omega)
  have c4 : Near 0 (1 / 2 ^ 2) (Float.ofBits 0x3fcc71c51d8e78af) :=
    near_of_exponentField (by decide) (by omega)
  have c5 : Near 0 (1 / 2 ^ 2) (Float.ofBits 0x3fc7466496cb03de) :=
    near_of_exponentField (by decide) (by omega)
  have c6 : Near 0 (1 / 2 ^ 2) (Float.ofBits 0x3fc39a09d078c69f) :=
    near_of_exponentField (by decide) (by omega)
  have c7 : Near 0 (1 / 2 ^ 2) (Float.ofBits 0x3fc2f112df3e5244) :=
    near_of_exponentField (by decide) (by omega)
  have z2 : Near 0 (1 / 8) (z * z) := (hz.mul hz (by norm_num)).mono (by norm_num [slack])
  have z4 : Near 0 (1 / 32) (z * z * (z * z)) :=
    (z2.mul z2 (by norm_num)).mono (by norm_num [slack])
  have z6 : Near 0 (1 / 128) (z * z * (z * z * (z * z))) :=
    (z2.mul z4 (by norm_num)).mono (by norm_num [slack])
  have a := (hz.fused c7 c6 (by norm_num)).mono (d := 0) (p := 1 / 2) (by norm_num [slack])
  have b := (hz.fused c5 c4 (by norm_num)).mono (d := 0) (p := 1 / 2) (by norm_num [slack])
  have c := (hz.fused c3 c2 (by norm_num)).mono (d := 0) (p := 1) (by norm_num [slack])
  have d := (z2.mul c (by norm_num)).mono (d := 0) (p := 1 / 4) (by norm_num [slack])
  have e := (hz.fused c1 d (by norm_num)).mono (d := 0) (p := 3 / 4) (by norm_num [slack])
  have f := (z4.fused b e (by norm_num)).mono (d := 0) (p := 7 / 8) (by norm_num [slack])
  exact (z6.fused a f (by norm_num)).mono (by norm_num [slack])

section

variable {f : Float}

theorem near_halfSquare (hf : Near 0 (1 / 2) f) : Near 0 (1 / 4) (0.5 * f * f) := by
  have h := ((near_half.mono (d := 0) (p := 1 / 2) (by norm_num)).mul hf (by norm_num)).mono
    (d := 0) (p := 1 / 3) (by norm_num [slack])
  exact (h.mul hf (by norm_num)).mono (by norm_num [slack])

/-- The argument of the series is small: its denominator stays away from zero. -/
theorem near_quotient (hf : Near 0 (1 / 2) f) : Near 0 (9 / 20) (f / (2.0 + f)) := by
  have h := (near_two.add hf (by norm_num)).mono (d := 2) (p := 5 / 8) (by norm_num [slack])
  exact (hf.div h (d := 5 / 4) (by norm_num) (by norm_num) (by norm_num)).mono
    (by norm_num [slack])

/-- The series, less its first term. -/
theorem near_remainder (hf : Near 0 (1 / 2) f) :
    Near 0 1 (f / (2.0 + f) *
      (0.5 * f * f + logPolynomial (f / (2.0 + f) * (f / (2.0 + f))))) := by
  have s := near_quotient hf
  have z := (s.mul s (by norm_num)).mono (d := 0) (p := 1 / 4) (by norm_num [slack])
  have m := ((near_halfSquare hf).add (near_logPolynomial z) (by norm_num)).mono (d := 0)
    (p := 2) (by norm_num [slack])
  exact (s.mul m (by norm_num)).mono (by norm_num [slack])

theorem near_logCentral (hf : Near 0 (1 / 2) f) : Near 0 2 (logCentral f) := by
  have h := ((near_halfSquare hf).sub (near_remainder hf) (by norm_num)).mono (d := 0)
    (p := 4 / 3) (by norm_num [slack])
  exact (hf.sub h (by norm_num)).mono (by norm_num [slack])

/-! ## Powers of two -/

/-- The multiple of `ln 2` is added within the range of doubles. -/
theorem isFinite_times_fused {k : ℤ} {x : Float} (hk : |k| ≤ 1100) (hx : Near 0 8 x) :
    (fused (Float.ofInt k) lnTwoHigh x).isFinite = true := by
  obtain ⟨ht, hv⟩ := val_ofInt (k := k) (by omega)
  have t : Near 0 1100 (Float.ofInt k) := ⟨ht, by rw [hv, sub_zero]; exact_mod_cast hk⟩
  have high : Near 0 (1 / 2 ^ 0) lnTwoHigh := near_of_exponentField (by decide) (by omega)
  exact isFinite_fused_of_near t high hx (le_two_zpow_of_le (by norm_num))

theorem near_times_fused {k : ℤ} {x : Float} {b : ℚ} (hk : |k| ≤ 1100) (hx : Near 0 b x)
    (hb : b ≤ 7) : Near 0 (b + 1 / 1000) (fused (Float.ofInt k) lnTwoLow x) := by
  obtain ⟨ht, hv⟩ := val_ofInt (k := k) (by omega)
  have t : Near 0 1100 (Float.ofInt k) := ⟨ht, by rw [hv, sub_zero]; exact_mod_cast hk⟩
  have low : Near 0 (1 / 2 ^ 32) lnTwoLow := near_of_exponentField (by decide) (by omega)
  refine (t.fused low hx ?_).mono ?_
  · rw [abs_zero, zero_add]
    linarith
  · rw [sub_zero, abs_zero, zero_add]
    norm_num [slack]
    linarith

/-- **The reconstruction is finite** for every reduced argument and every power of two in use. -/
theorem isFinite_logScaled {k : ℤ} {c : Float} (hf : Near 0 (1 / 2) f) (hc : Near 0 2 c)
    (hk : |k| ≤ 1100) (flat : Bool) : (logScaled k f c flat).isFinite = true := by
  have low := near_times_fused hk hc (by norm_num)
  unfold logScaled
  dsimp only
  split
  · split
    · split
      · decide
      · exact isFinite_times_fused hk (low.mono (by norm_num))
    · have third : Near 0 (1 / 2 ^ 0) (-0.66666666666666666 : Float) :=
        near_of_exponentField (by decide +kernel) (by omega)
      have one := near_one.mono (d := 0) (p := 1) (by norm_num)
      have factor := (third.fused hf one (by norm_num)).mono (d := 0) (p := 2)
        (by norm_num [slack])
      have r := (factor.mul (near_halfSquare hf) (by norm_num)).mono (d := 0) (p := 3 / 4)
        (by norm_num [slack])
      split
      · exact (hf.sub r (by norm_num)).finite
      · have d := (r.sub low (by norm_num)).mono (d := 0) (p := 3) (by norm_num [slack])
        have e := (d.sub hf (by norm_num)).mono (d := 0) (p := 4) (by norm_num [slack])
        exact isFinite_times_fused hk (e.neg.mono (by norm_num))
  · split
    · exact (near_logCentral hf).finite
    · have a := (low.add (near_remainder hf) (by norm_num)).mono (d := 0) (p := 4)
        (by norm_num [slack])
      have d := ((near_halfSquare hf).sub a (by norm_num)).mono (d := 0) (p := 5)
        (by norm_num [slack])
      have e := (d.sub hf (by norm_num)).mono (d := 0) (p := 6) (by norm_num [slack])
      exact isFinite_times_fused hk (e.neg.mono (by norm_num))

end

/-- **Taking the power of two out of a number leaves one with the same fraction.** -/
theorem val_withExponent (u : Float) {k : ℤ} (hl : -1022 ≤ k) (hu : k ≤ 1023) :
    (withExponent u k).isFinite = true ∧
      val (withExponent u k) = (0x10000000000000 + fractionField u : ℕ) * 2 ^ (k - 52) := by
  have hf := fractionField_lt u
  have hn : (UInt64.ofNat ((k + 1023).toNat * 0x10000000000000 + fractionField u)).toNat =
      (k + 1023).toNat * 0x10000000000000 + fractionField u :=
    UInt64.toNat_ofNat_of_lt' (by rw [UInt64.size]; omega)
  have h := unpacked_ofBits
    (UInt64.ofNat ((k + 1023).toNat * 0x10000000000000 + fractionField u))
  have hdiv : ((k + 1023).toNat * 0x10000000000000 + fractionField u) / 0x10000000000000 % 2048 =
      (k + 1023).toNat := by omega
  have hmod : ((k + 1023).toNat * 0x10000000000000 + fractionField u) % 0x10000000000000 =
      fractionField u := by omega
  rw [hn, hdiv, hmod, signOf, if_neg (by simp; omega), ofFields, if_neg (by omega),
    if_neg (by omega)] at h
  refine ⟨by rw [withExponent, isFinite_eq, h]; rfl, ?_⟩
  rw [withExponent, val, h]
  show ((0x10000000000000 + fractionField u : ℕ) : ℚ) * 2 ^ (((k + 1023).toNat : ℤ) - 1075) = _
  rw [show (((k + 1023).toNat : ℤ) - 1075) = k - 52 by omega]

/-- The number from which on the next power of two is the closer one. -/
theorem near_rootTwo : Near (14142 / 10000) (1 / 1000) (Float.ofBits 0x3ff6a09e00000000) :=
  near_of_fields (e := 1023) (f := 0x6a09e00000000) (s := false) rfl rfl rfl (by omega)
    (by omega) (by norm_num [signed, signOf, abs_le])

/-- **The logarithm by way of the power of two is finite.** -/
theorem isFinite_logReduced (u : Float) {c : Float} (hc : Near 0 2 c) :
    (logReduced u c).isFinite = true := by
  have he := exponentField_lt u
  have hf : ((fractionField u : ℕ) : ℚ) < 0x10000000000000 := by
    exact_mod_cast fractionField_lt u
  have h0 : (0 : ℚ) ≤ (fractionField u : ℕ) := Nat.cast_nonneg _
  obtain ⟨h1, hv1⟩ := val_withExponent u (k := 0) (by omega) (by omega)
  obtain ⟨h2, hv2⟩ := val_withExponent u (k := -1) (by omega) (by omega)
  norm_num at hv1 hv2
  unfold logReduced
  dsimp only
  split
  · rename_i hlt
    rw [lt_iff_val_lt h1 near_rootTwo.finite] at hlt
    have hu := near_rootTwo.bounds.2
    refine isFinite_logScaled ?_ hc (abs_le.2 ⟨by omega, by omega⟩) _
    have d : Near (121 / 100) (22 / 100) (withExponent u 0) :=
      ⟨h1, abs_le.2 ⟨by linarith, by linarith⟩⟩
    exact (d.sub near_one (by norm_num)).mono (by norm_num [slack])
  · rename_i hge
    rw [lt_iff_val_lt h1 near_rootTwo.finite, not_lt] at hge
    have hl := near_rootTwo.bounds.1
    refine isFinite_logScaled ?_ hc (abs_le.2 ⟨by omega, by omega⟩) _
    have d : Near (7 / 8) (3 / 16) (withExponent u (-1)) :=
      ⟨h2, abs_le.2 ⟨by linarith, by linarith⟩⟩
    exact (d.sub near_one (by norm_num)).mono (by norm_num [slack])

/-! ## All arguments -/

/-- Up to this number the argument is its own reduced one. -/
theorem near_logCentralEnd : Near (41422 / 100000) (1 / 100000) (Float.ofBits 0x3fda827a00000000) :=
  near_of_fields (e := 1021) (f := 0xa827a00000000) (s := false) rfl rfl rfl (by omega)
    (by omega) (by norm_num [signed, signOf, abs_le])

section

variable {x : Float}

/-- One plus a number from zero up is at least one, and off by at most about one. -/
theorem near_onePlus (hx : x.isFinite) (h0 : 0 ≤ val x) (hu : val x ≤ 2 ^ (53 : ℤ)) :
    Near (1 + val x) (101 / 100) (1.0 + x) ∧ 1 ≤ val (1.0 + x) := by
  have h := nearest_add near_one.finite hx
  rw [near_one.val_eq] at h
  norm_num at hu
  have hn := h.near_of_le (b := 2 ^ 53 + 1) (abs_le.2 ⟨by linarith, by linarith⟩) (by norm_num)
  have hone : IsDouble 1 := by simpa using isDouble_two_zpow (k := 0) (by omega)
  exact ⟨hn.mono (by norm_num),
    (h.rounds_of_isFinite hn.finite).le_value hone (by linarith)⟩

/-- What adding one loses is of the order of one. -/
theorem near_lost (hx : x.isFinite) (h0 : 0 ≤ val x) (hu : val x ≤ 2 ^ (53 : ℤ)) :
    Near 0 (5 / 4)
      (if (2.0 : Float) ≤ 1.0 + x then 1.0 - (1.0 + x - x) else x - (1.0 + x - 1.0)) := by
  obtain ⟨hn, h1⟩ := near_onePlus hx h0 hu
  have hb := hn.near
  split
  · have hd : |val (1.0 + x) - val x - 1| ≤ 101 / 100 := by
      rwa [show val (1.0 + x) - val x - 1 = val (1.0 + x) - (1 + val x) by ring]
    have d := Near.of_nearest (nearest_sub hn.finite hx) hd (by norm_num)
    exact (near_one.sub d (by norm_num [slack])).mono (by norm_num [slack])
  · -- Below two the argument is small, and so is the error of the sum.
    rename_i h2
    rw [le_iff_val_le near_two.finite hn.finite, not_le, near_two.val_eq] at h2
    have hs : val x ≤ 4 := by linarith [abs_le.1 hb]
    have hsum := nearest_add near_one.finite hx
    rw [near_one.val_eq] at hsum
    have u := hsum.near (abs_le.2 ⟨by linarith, by linarith⟩)
    have hd : |val (1.0 + x) - val 1.0 - val x| ≤ slack := by
      rw [near_one.val_eq, show val (1.0 + x) - 1 - val x = val (1.0 + x) - (1 + val x) by ring]
      exact u.near
    have d := Near.of_nearest (nearest_sub hn.finite near_one.finite) hd
      (by rw [abs_of_nonneg h0]; norm_num [slack]; linarith)
    have hl : |val x - val (1.0 + x - 1.0) - 0| ≤ 1 := by
      rw [sub_zero, abs_sub_comm]
      exact d.near.trans (by norm_num [slack])
    exact (Near.of_nearest (nearest_sub hx d.finite) hl (by norm_num)).mono (by norm_num [slack])

/-- The logarithm of one plus a number whose digits adding one can lose. -/
theorem isFinite_logReduced_onePlus (hx : x.isFinite) (h0 : 0 ≤ val x)
    (hu : val x ≤ 2 ^ (53 : ℤ)) :
    (logReduced (1.0 + x)
      ((if (2.0 : Float) ≤ 1.0 + x then 1.0 - (1.0 + x - x) else x - (1.0 + x - 1.0)) /
        (1.0 + x))).isFinite = true := by
  obtain ⟨hn, h1⟩ := near_onePlus hx h0 hu
  have hl := near_lost hx h0 hu
  have u : Near (val (1.0 + x)) 0 (1.0 + x) := ⟨hn.finite, by simp⟩
  exact isFinite_logReduced _
    ((hl.div u one_pos (by linarith) (by norm_num)).mono (by norm_num [slack]))

/-- **The logarithm of one plus a finite number from zero up is finite.** -/
theorem isFinite_logOnePlus (hx : x.isFinite) (h0 : 0 ≤ val x) :
    (logOnePlus x).isFinite = true := by
  have habs : x.abs.isFinite = true := by rwa [isFinite_abs]
  obtain ⟨h29, hv29⟩ := val_powerOfTwo (k := -29) (by omega) (by omega)
  obtain ⟨h53, hv53⟩ := val_powerOfTwo (k := 53) (by omega) (by omega)
  have hone : ¬ x ≤ -1.0 := by
    rw [le_iff_val_le hx (by rw [isFinite_neg_eq]; exact near_one.finite), val_neg,
      near_one.val_eq]
    linarith
  unfold logOnePlus
  rw [isNaN_of_isFinite hx, isInf_of_isFinite hx, if_neg (by decide), if_neg hone,
    if_neg (by decide)]
  split
  · exact hx
  · split
    · -- Two terms of the series.
      rename_i hs
      rw [lt_iff_val_lt habs h29, val_abs, hv29] at hs
      have s : Near 0 1 x := ⟨hx, by
        rw [sub_zero]
        exact hs.le.trans (zpow_le_one_of_nonpos₀ (by norm_num) (by omega))⟩
      have half := near_half.mono (d := 0) (p := 1 / 2) (by norm_num)
      have q := (s.mul s (by norm_num)).mono (d := 0) (p := 2) (by norm_num [slack])
      have t := (q.mul half (by norm_num)).mono (d := 0) (p := 2) (by norm_num [slack])
      exact (s.sub t (by norm_num)).finite
    · split
      · rename_i hc
        have hlt := hc.2
        rw [lt_iff_val_lt hx near_logCentralEnd.finite] at hlt
        have hend := near_logCentralEnd.bounds.2
        have f : Near 0 (1 / 2) x := ⟨hx, by
          rw [sub_zero, abs_of_nonneg h0]
          linarith⟩
        exact (near_logCentral f).finite
      · split
        · rename_i hu
          rw [lt_iff_val_lt hx h53, hv53] at hu
          exact isFinite_logReduced_onePlus hx h0 hu.le
        · exact isFinite_logReduced _ ⟨val_zero.1, by rw [val_zero.2]; norm_num⟩

end

end QueryForecast.Numeric
