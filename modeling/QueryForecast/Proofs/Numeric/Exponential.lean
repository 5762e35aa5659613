import QueryForecast.Numeric.Exponential
import QueryForecast.Proofs.Numeric.Bounds
import QueryForecast.Proofs.Numeric.Comparing
import QueryForecast.Proofs.Numeric.Whole

/-!
# The exponential of a number is a number

`expMinusOne` divides and subtracts, so it has to be shown that no quotient of zeros and no
difference of infinities comes up. After the reduction of the argument everything is small; the
bounds are far from tight.

* `near_expPolynomial`, `near_expCorrection` — the rational function on reduced arguments.
* `isNaN_expScaled` — the reconstruction, for reduced arguments and all factors `2^k` in use.
* `isNaN_expMinusOne` — the exponential of a defined number is defined.
-/

namespace QueryForecast.Numeric

/-! ## Constants -/

/-- A constant, read off its fields. -/
theorem near_of_fields {x : Float} {e f : Nat} {s : Bool} {c b : ℚ} (he : exponentField x = e)
    (hf : fractionField x = f) (hs : signBit x = s) (hl : 0 < e) (hu : e < 2047)
    (h : |signed (signOf s) ((0x10000000000000 + f : ℕ) * 2 ^ ((e : ℤ) - 1075)) - c| ≤ b) :
    Near c b x := by
  obtain ⟨h1, h2⟩ := val_of_fields he hf hs hl hu
  exact ⟨h1, h2 ▸ h⟩

/-- A constant is bounded by its exponent field. -/
theorem near_of_exponentField {x : Float} {n : ℕ} (h : exponentField x + n ≤ 1022)
    (hn : n ≤ 1021) :
    Near 0 (1 / 2 ^ n) x := by
  have hfin : x.isFinite = true := by
    rw [isFinite_eq, unpacked_eq, ofFields, if_neg (by omega)]
    split
    · split <;> rfl
    · rfl
  refine ⟨hfin, ?_⟩
  rw [sub_zero, ← ExactValue.rat_ofFloat hfin, ExactValue.rat_eq, abs_signed,
    abs_of_nonneg (by positivity)]
  have hf := fractionField_lt x
  have hb : ((ExactValue.ofFloat x).mantissa : ℚ) ≤ 2 ^ (53 : ℤ) ∧
      (ExactValue.ofFloat x).exponent ≤ -53 - n := by
    unfold ExactValue.ofFloat
    split
    · refine ⟨?_, by dsimp only; omega⟩
      have : ((fractionField x : ℕ) : ℚ) ≤ ((0x10000000000000 : ℕ) : ℚ) := by exact_mod_cast hf.le
      push_cast at this
      linarith
    · refine ⟨?_, by dsimp only; omega⟩
      have : ((0x10000000000000 + fractionField x : ℕ) : ℚ) ≤ ((0x20000000000000 : ℕ) : ℚ) := by
        exact_mod_cast (by omega)
      push_cast at this ⊢
      linarith
  calc ((ExactValue.ofFloat x).mantissa : ℚ) * 2 ^ (ExactValue.ofFloat x).exponent
      ≤ 2 ^ (53 : ℤ) * 2 ^ (-53 - n : ℤ) :=
        mul_le_mul hb.1 (zpow_le_zpow_right₀ (by norm_num) hb.2) (by positivity) (by positivity)
    _ = 2 ^ (-n : ℤ) := by
      rw [← zpow_add₀ (by norm_num)]
      congr 1
      omega
    _ = 1 / 2 ^ n := by rw [zpow_neg, zpow_natCast, inv_eq_one_div]

theorem val_zero : (0.0 : Float).isFinite = true ∧ val 0.0 = 0 := by
  refine ⟨rfl, ?_⟩
  rw [val, unpacked_eq, show fractionField 0.0 = 0 from rfl,
    show exponentField 0.0 = 0 from rfl]
  rfl

theorem near_one : Near 1 0 1.0 :=
  near_of_fields (e := 1023) (f := 0) (s := false) rfl rfl rfl (by omega) (by omega)
    (by norm_num [signed, signOf])

theorem near_half : Near (1 / 2) 0 0.5 :=
  near_of_fields (e := 1022) (f := 0) (s := false) rfl rfl rfl (by omega) (by omega)
    (by norm_num [signed, signOf])

theorem near_three : Near 3 0 3.0 :=
  near_of_fields (e := 1024) (f := 0x8000000000000) (s := false) rfl rfl rfl
    (by omega) (by omega) (by norm_num [signed, signOf])

theorem near_six : Near 6 0 6.0 :=
  near_of_fields (e := 1025) (f := 0x8000000000000) (s := false) rfl rfl rfl
    (by omega) (by omega) (by norm_num [signed, signOf])

theorem near_two : Near 2 0 2.0 :=
  near_of_fields (e := 1024) (f := 0) (s := false) rfl rfl rfl (by omega) (by omega)
    (by norm_num [signed, signOf])

/-- The powers of two are exact. -/
theorem val_powerOfTwo {k : ℤ} (hl : -1022 ≤ k) (hu : k ≤ 1023) :
    (powerOfTwo k).isFinite = true ∧ val (powerOfTwo k) = 2 ^ k := by
  have hn : (UInt64.ofNat ((k + 1023).toNat * 0x10000000000000)).toNat =
      (k + 1023).toNat * 0x10000000000000 :=
    UInt64.toNat_ofNat_of_lt' (by rw [UInt64.size]; omega)
  have h := unpacked_ofBits (UInt64.ofNat ((k + 1023).toNat * 0x10000000000000))
  rw [hn, Nat.mul_mod_left, Nat.mul_div_cancel _ (by omega), signOf, if_neg (by simp; omega),
    Nat.mod_eq_of_lt (by omega), ofFields, if_neg (by omega), if_neg (by omega)] at h
  refine ⟨by rw [powerOfTwo, isFinite_eq, h]; rfl, ?_⟩
  rw [powerOfTwo, val, h]
  show ((0x10000000000000 + 0 : ℕ) : ℚ) * 2 ^ (((k + 1023).toNat : ℤ) - 1075) = 2 ^ k
  rw [show (((k + 1023).toNat : ℤ) - 1075) = k - 52 by omega, zpow_sub₀ (by norm_num)]
  norm_num
  field_simp

/-! ## Reduced arguments -/

/-- The polynomial is close to one for small arguments. -/
theorem near_expPolynomial {h : Float} (hh : Near 0 (1 / 8) h) :
    Near 1 (1 / 16) (expPolynomial h) := by
  have c1 : Near 0 (1 / 2 ^ 4) (Float.ofBits 0xbfa11111111110f4) :=
    near_of_exponentField (by decide) (by omega)
  have c2 : Near 0 (1 / 2 ^ 4) (Float.ofBits 0x3f5a01a019fe5585) :=
    near_of_exponentField (by decide) (by omega)
  have c3 : Near 0 (1 / 2 ^ 4) (Float.ofBits 0xbf14ce199eaadbb7) :=
    near_of_exponentField (by decide) (by omega)
  have c4 : Near 0 (1 / 2 ^ 4) (Float.ofBits 0x3ed0cfca86e65239) :=
    near_of_exponentField (by decide) (by omega)
  have c5 : Near 0 (1 / 2 ^ 4) (Float.ofBits 0xbe8afdb76e09c32d) :=
    near_of_exponentField (by decide) (by omega)
  have h2 : Near 0 (1 / 32) (h * h) := (hh.mul hh (by norm_num)).mono (by norm_num [slack])
  have h4 : Near 0 (1 / 512) (h * h * (h * h)) :=
    (h2.mul h2 (by norm_num)).mono (by norm_num [slack])
  have a : Near 0 (1 / 8) (fused h (Float.ofBits 0xbe8afdb76e09c32d)
      (Float.ofBits 0x3ed0cfca86e65239)) :=
    (hh.fused c5 c4 (by norm_num)).mono (by norm_num [slack])
  have b : Near 0 (1 / 8) (fused h (Float.ofBits 0xbf14ce199eaadbb7)
      (Float.ofBits 0x3f5a01a019fe5585)) :=
    (hh.fused c3 c2 (by norm_num)).mono (by norm_num [slack])
  have c : Near 1 (1 / 64) (fused h (Float.ofBits 0xbfa11111111110f4) 1.0) :=
    (hh.fused c1 near_one (by norm_num)).mono (by norm_num [slack])
  have d := (h2.fused b c (by norm_num)).mono (d := 1) (p := 1 / 32) (by norm_num [slack])
  exact (h4.fused a d (by norm_num)).mono (by norm_num [slack])

section

variable {r : Float}

theorem near_half_mul (hr : Near 0 (3 / 8) r) : Near 0 (1 / 4) (0.5 * r) :=
  ((near_half.mono (d := 0) (p := 1 / 2) (by norm_num)).mul hr (by norm_num)).mono
    (by norm_num [slack])

theorem near_half_square (hr : Near 0 (3 / 8) r) : Near 0 (1 / 8) (r * (0.5 * r)) :=
  (hr.mul (near_half_mul hr) (by norm_num)).mono (by norm_num [slack])

/-- The correction is small: its denominator stays away from zero. -/
theorem near_expCorrection (hr : Near 0 (3 / 8) r) : Near 0 (1 / 4) (expCorrection r) := by
  have half := near_half_mul hr
  have h := near_half_square hr
  have p := near_expPolynomial h
  have np := p.neg.mono (d := 0) (p := 17 / 16) (by norm_num)
  have t := (np.fused half near_three (by norm_num)).mono (d := 3) (p := 1 / 2)
    (by norm_num [slack])
  have numerator := (p.sub t (by norm_num)).mono (d := 0) (p := 3) (by norm_num [slack])
  have nr := hr.neg.mono (d := 0) (p := 3 / 8) (by norm_num)
  have t0 := t.mono (d := 0) (p := 7 / 2) (by norm_num)
  have denominator := (nr.fused t0 near_six (by norm_num)).mono (d := 6) (p := 3 / 2)
    (by norm_num [slack])
  have quotient := (numerator.div denominator (d := 4) (by norm_num) (by norm_num)
    (by norm_num)).mono (d := 0) (p := 1) (by norm_num [slack])
  exact (h.mul quotient (by norm_num)).mono (by norm_num [slack])

/-! ## Reconstruction -/

theorem isNaN_scaleBy {x : Float} {k : ℤ} (hx : x.isNaN = false) (hl : -1022 ≤ k) (hu : k ≤ 2046) :
    (scaleBy x k).isNaN = false := by
  obtain ⟨h1, h2⟩ := val_powerOfTwo (k := k - k / 2) (by omega) (by omega)
  obtain ⟨h3, h4⟩ := val_powerOfTwo (k := k / 2) (by omega) (by omega)
  refine isNaN_mul (isNaN_mul hx h1 ?_) h3 ?_
  · rw [h2]
    positivity
  · rw [h4]
    positivity

theorem near_powerOfTwo_neg {k : ℤ} (h0 : 0 ≤ k) (hu : k ≤ 1022) :
    Near 0 1 (powerOfTwo (-k)) := by
  obtain ⟨hf, hv⟩ := val_powerOfTwo (k := -k) (by omega) (by omega)
  refine ⟨hf, ?_⟩
  rw [hv, sub_zero, abs_of_pos (by positivity)]
  exact zpow_le_one_of_nonpos₀ (by norm_num) (by omega)

/-- **The reconstruction is defined** for every reduced argument and every factor in use. -/
theorem isNaN_expScaled {c : Float} {k : ℤ} (hr : Near 0 (3 / 8) r) (hc : Near 0 1 c)
    (hl : -100 ≤ k) (hu : k ≤ 1100) : (expScaled k r c).isNaN = false := by
  have h := near_half_square hr
  have hcr := near_expCorrection hr
  have d := (hcr.sub hc (by norm_num)).mono (d := 0) (p := 3 / 2) (by norm_num [slack])
  have nc := hc.neg.mono (d := 0) (p := 1) (by norm_num)
  have f := (d.fused hr nc (by norm_num)).mono (d := 0) (p := 2) (by norm_num [slack])
  have e := (f.sub h (by norm_num)).mono (d := 0) (p := 5 / 2) (by norm_num [slack])
  have re := (hr.sub e (by norm_num)).mono (d := 0) (p := 3) (by norm_num [slack])
  have er := (e.sub hr (by norm_num)).mono (d := 0) (p := 3) (by norm_num [slack])
  have one := near_one.mono (d := 0) (p := 1) (by norm_num)
  have half := near_half.mono (d := 0) (p := 1 / 2) (by norm_num)
  have two := near_two.mono (d := 0) (p := 2) (by norm_num)
  unfold expScaled
  dsimp only
  split
  · -- `k = -1`
    exact (half.fused re (near_half.neg.mono (d := 0) (p := 1 / 2) (by norm_num))
      (by norm_num)).isNaN
  · split
    · -- `k = 1`
      split
      · have rh := (hr.add half (by norm_num)).mono (d := 0) (p := 1) (by norm_num [slack])
        have m := (e.sub rh (by norm_num)).mono (d := 0) (p := 4) (by norm_num [slack])
        exact ((near_two.neg.mono (d := 0) (p := 2) (by norm_num)).mul m (by norm_num)).isNaN
      · exact (two.fused re one (by norm_num)).isNaN
    · split
      · -- The factor makes one of the terms negligible.
        have m := one.sub er (by norm_num)
        exact isNaN_sub (isNaN_scaleBy m.isNaN (by omega) (by omega)) near_one.finite
      · have hp := near_powerOfTwo_neg (k := k) (by omega) (by omega)
        split
        · have m := ((one.sub hp (by norm_num)).mono (d := 0) (p := 3) (by norm_num [slack])).sub
            er (by norm_num)
          exact isNaN_scaleBy m.isNaN (by omega) (by omega)
        · have ep := (e.add hp (by norm_num)).mono (d := 0) (p := 4) (by norm_num [slack])
          have m := ((hr.sub ep (by norm_num)).mono (d := 0) (p := 5) (by norm_num [slack])).add
            one (by norm_num)
          exact isNaN_scaleBy m.isNaN (by omega) (by omega)

end

/-! ## Reducing the argument -/

/-- The value of `lnTwoHigh`. -/
def lnTwo : ℚ := 0x162e42fee00000 * 2 ^ (-53 : ℤ)

theorem val_lnTwoHigh : lnTwoHigh.isFinite = true ∧ val lnTwoHigh = lnTwo := by
  obtain ⟨h1, h2⟩ := val_of_fields (x := lnTwoHigh) (e := 1022)
    (f := 0x62e42fee00000) (s := false) rfl rfl rfl (by omega) (by omega)
  exact ⟨h1, by rw [h2]; norm_num [signed, signOf, lnTwo]⟩

/-- An argument near a multiple of `ln 2` is reduced to a small one. -/
theorem isNaN_expReduced {x : Float} {k : ℤ} (hx : x.isFinite) (hl : -100 ≤ k) (hu : k ≤ 1100)
    (h : |val x - k * lnTwo| ≤ 36 / 100) : (expReduced k x).isNaN = false := by
  have hk : |k| ≤ 1100 := abs_le.2 ⟨by omega, hu⟩
  obtain ⟨ht, hvt⟩ := val_ofInt (k := k) (by omega)
  have t : Near 0 1100 (Float.ofInt k) := by
    refine ⟨ht, ?_⟩
    rw [hvt, sub_zero]
    exact_mod_cast hk
  have hhigh := nearest_fused (x := -Float.ofInt k) (by rwa [isFinite_neg_eq]) val_lnTwoHigh.1 hx
  rw [val_neg, hvt, val_lnTwoHigh.2, show -(k : ℚ) * lnTwo + val x = val x - k * lnTwo by ring]
    at hhigh
  have high := (Near.of_nearest (c := 0) (b := 36 / 100) hhigh (by rwa [sub_zero])
    (by norm_num)).mono (d := 0) (p := 361 / 1000) (by norm_num [slack])
  have lnLow : Near 0 (1 / 2 ^ 32) lnTwoLow :=
    near_of_exponentField (by decide) (by omega)
  have low := (t.mul lnLow (by norm_num)).mono (d := 0) (p := 1 / 1000) (by norm_num [slack])
  have r := (high.sub low (by norm_num)).mono (d := 0) (p := 3 / 8) (by norm_num [slack])
  have c := (((high.sub r (by norm_num)).mono (d := 0) (p := 3 / 4) (by norm_num [slack])).sub low
    (by norm_num)).mono (d := 0) (p := 1) (by norm_num [slack])
  exact isNaN_expScaled r c hl hu

/-- The whole part of a number and a half, rounded, is half a unit away from the number, up to the
error of adding the half. -/
theorem wholePart_near {x : Float} {v : ℚ} (h : Nearest (v + 1 / 2) x) (h0 : 0 ≤ v)
    (hu : v ≤ 2047) : |(wholePart x : ℚ) - v| ≤ 1 / 2 + 1 / 2 ^ 40 := by
  obtain ⟨hs, hb⟩ := h.near_of_le (b := 2048) (abs_le.2 ⟨by linarith, by linarith⟩) (by norm_num)
  obtain ⟨hbl, hbu⟩ := abs_le.1 hb
  norm_num at hbl hbu
  obtain ⟨hwl, hwu⟩ := wholePart_bounds hs (by linarith) (by linarith)
  rw [abs_le]
  constructor <;> linarith

/-- The nearest whole number is half a unit away, up to the error of adding the half. -/
theorem nearestWhole_near {q : Float} (hf : q.isFinite) (h : |val q| ≤ 2047) :
    |(nearestWhole q : ℚ) - val q| ≤ 1 / 2 + 1 / 2 ^ 40 := by
  obtain ⟨hl, hu⟩ := abs_le.1 h
  have hzero := val_zero
  have hhalf : val 0.5 = 1 / 2 := by
    have hn := near_half.near
    exact sub_eq_zero.1 (abs_nonpos_iff.1 hn)
  have hlt : q < 0.0 ↔ val q < 0 := by rw [lt_iff_val_lt hf hzero.1, hzero.2]
  unfold nearestWhole
  split
  · -- A negative number is rounded as its opposite.
    rename_i hq
    have hq := hlt.1 hq
    have hn := nearest_sub near_half.finite hf
    rw [hhalf, show 1 / 2 - val q = -val q + 1 / 2 by ring] at hn
    have hw := wholePart_near hn (by linarith) (by linarith)
    rw [show ((0.5 - q).toUInt64.toNat : ℤ) = (wholePart (0.5 - q) : ℕ) from rfl, ← abs_neg]
    push_cast
    rwa [show -(-(wholePart (0.5 - q) : ℚ) - val q) = wholePart (0.5 - q) - -val q by ring]
  · rename_i hq
    have hq := not_lt.1 fun hc => hq (hlt.2 hc)
    have hn := nearest_add hf near_half.finite
    rw [hhalf] at hn
    have hw := wholePart_near hn hq hu
    rw [show ((q + 0.5).toUInt64.toNat : ℤ) = (wholePart (q + 0.5) : ℕ) from rfl]
    push_cast
    exact hw

/-- The argument less the nearest multiple of `ln 2` is at most about half of `ln 2`. -/
theorem isNaN_expReduced_nearestWhole {x : Float} (hf : x.isFinite) (hl : -39 ≤ val x)
    (hu : val x ≤ 710) :
    (expReduced (nearestWhole (Float.ofBits 0x3ff71547652b82fe * x)) x).isNaN = false := by
  obtain ⟨h1, h2⟩ := val_of_fields (x := Float.ofBits 0x3ff71547652b82fe) (e := 1023)
    (f := 0x71547652b82fe) (s := false) rfl rfl rfl (by omega) (by omega)
  have hinv : val (Float.ofBits 0x3ff71547652b82fe) = 0x171547652b82fe * 2 ^ (-52 : ℤ) := by
    rw [h2]
    norm_num [signed, signOf]
  have hq := nearest_mul h1 hf
  rw [hinv] at hq
  norm_num at hq
  obtain ⟨hqf, hqn⟩ := hq.near_of_le (b := 2040) (abs_le.2 ⟨by linarith, by linarith⟩) (by norm_num)
  obtain ⟨hqn1, hqn2⟩ := abs_le.1 hqn
  norm_num at hqn1 hqn2
  have hk := nearestWhole_near hqf (abs_le.2 ⟨by linarith, by linarith⟩)
  obtain ⟨hk1, hk2⟩ := abs_le.1 hk
  norm_num at hk1 hk2
  generalize nearestWhole (Float.ofBits 0x3ff71547652b82fe * x) = k at *
  have hkl : ((-100 : ℤ) : ℚ) ≤ k := by
    push_cast
    linarith
  have hku : (k : ℚ) ≤ ((1100 : ℤ) : ℚ) := by
    push_cast
    linarith
  refine isNaN_expReduced hf (by exact_mod_cast hkl) (by exact_mod_cast hku) ?_
  rw [abs_le]
  norm_num [lnTwo]
  constructor <;> linarith

/-! ## All arguments -/

/-- Above this number the exponential is infinite. -/
theorem near_largest : Near (70979 / 100) (1 / 100) (Float.ofBits 0x40862e42fefa39ef) :=
  near_of_fields (e := 1032) (f := 0x62e42fefa39ef) (s := false) rfl rfl rfl (by omega)
    (by omega) (by norm_num [signed, signOf, abs_le])

/-- Below the opposite of this number the exponential less one is rounded to minus one. -/
theorem near_least : Near (3882 / 100) (1 / 100) (Float.ofBits 0x4043687a00000000) :=
  near_of_fields (e := 1028) (f := 0x3687a00000000) (s := false) rfl rfl rfl (by omega)
    (by omega) (by norm_num [signed, signOf, abs_le])

/-- Up to this number no reduction is needed. -/
theorem near_central : Near (34657 / 100000) (1 / 100000) (Float.ofBits 0x3fd62e4300000000) :=
  near_of_fields (e := 1021) (f := 0x62e4300000000) (s := false) rfl rfl rfl (by omega)
    (by omega) (by norm_num [signed, signOf, abs_le])

/-- Up to this number the argument is reduced by one `ln 2`. -/
theorem near_second : Near (10397 / 10000) (1 / 10000) (Float.ofBits 0x3ff0a2b200000000) :=
  near_of_fields (e := 1023) (f := 0x0a2b200000000) (s := false) rfl rfl rfl (by omega)
    (by omega) (by norm_num [signed, signOf, abs_le])

/-- Between the bounds a number is near one `ln 2`. -/
theorem abs_sub_lnTwo_le {v : ℚ} (hl : 34656 / 100000 ≤ v) (hu : v ≤ 10398 / 10000) :
    |v - lnTwo| ≤ 36 / 100 := by
  rw [abs_le]
  norm_num [lnTwo]
  constructor <;> linarith

/-- Between the bounds one `ln 2` is taken from a positive argument, or added to a negative one. -/
theorem isNaN_expReduced_one {x : Float} (hf : x.isFinite) (hl : 34656 / 100000 ≤ |val x|)
    (hu : |val x| ≤ 10398 / 10000) :
    (expReduced (if x < 0.0 then -1 else 1) x).isNaN = false := by
  have hv := abs_sub_lnTwo_le hl hu
  split
  · rename_i hneg
    rw [lt_iff_val_lt hf val_zero.1, val_zero.2] at hneg
    rw [abs_of_neg hneg] at hv
    refine isNaN_expReduced hf (by omega) (by omega) ?_
    rwa [← abs_neg, show -(val x - ((-1 : ℤ) : ℚ) * lnTwo) = -val x - lnTwo by push_cast; ring]
  · rename_i hneg
    rw [lt_iff_val_lt hf val_zero.1, val_zero.2, not_lt] at hneg
    rw [abs_of_nonneg hneg] at hv
    refine isNaN_expReduced hf (by omega) (by omega) ?_
    rwa [Int.cast_one, one_mul]

/-- In the central range nothing is taken from the argument. -/
theorem isNaN_sub_fused_expCorrection {x : Float} (hr : Near 0 (3 / 8) x) :
    (x - fused x (expCorrection x) (-(x * (0.5 * x)))).isNaN = false := by
  have h := (near_half_square hr).neg.mono (d := 0) (p := 1 / 8) (by norm_num)
  exact isNaN_sub hr.isNaN (hr.fused (near_expCorrection hr) h (by norm_num)).finite

/-- **The exponential of a defined number is defined.** -/
theorem isNaN_expMinusOne {x : Float} (hx : x.isNaN = false) : (expMinusOne x).isNaN = false := by
  unfold expMinusOne
  rw [hx, if_neg (by decide)]
  split
  · decide
  · rename_i hu
    split
    · decide
    · rename_i hl
      have hf := isFinite_of_between hx near_least.neg.finite near_largest.finite hu hl
      have habs : x.abs.isFinite = true := by rwa [isFinite_abs]
      split
      · exact hx
      · split
        · rename_i hc
          rw [lt_iff_val_lt habs near_central.finite, val_abs] at hc
          have hr : Near 0 (3 / 8) x := ⟨hf, by
            rw [sub_zero]
            linarith [near_central.bounds.2]⟩
          exact isNaN_sub_fused_expCorrection hr
        · rename_i hc
          rw [lt_iff_val_lt habs near_central.finite, val_abs, not_lt] at hc
          split
          · rename_i hs
            rw [lt_iff_val_lt habs near_second.finite, val_abs] at hs
            exact isNaN_expReduced_one hf (by linarith [near_central.bounds.1])
              (by linarith [near_second.bounds.2])
          · rw [lt_iff_val_lt near_largest.finite hf, not_lt] at hu
            rw [le_iff_val_le hf near_least.neg.finite, not_le] at hl
            exact isNaN_expReduced_nearestWhole hf (by linarith [near_least.neg.bounds.1])
              (by linarith [near_largest.bounds.2])

end QueryForecast.Numeric
