import QueryForecast.Proofs.Numeric.Defined
import QueryForecast.Proofs.Numeric.ExactRounding

/-!
# Bounds that rounding keeps

Intermediate results of the elementary functions are small. For numbers of magnitude up to 8 one
operation is off by less than `slack`, which makes bounds add up.

* `Near c b x` — the double `x` is finite and at most `b` away from `c`.
* `Near.add`, `Near.sub`, `Near.mul`, `Near.div`, `Near.fused` — what is known of a result.
-/

namespace QueryForecast.Numeric

/-- More than the rounding error of a result of magnitude up to 8. -/
def slack : ℚ := 1 / 2 ^ 48

/-- A finite double that is at most `b` away from `c`. -/
structure Near (c b : ℚ) (x : Float) : Prop where
  finite : x.isFinite = true
  near : |val x - c| ≤ b

theorem zpow_neg_le_of_le {n : ℕ} {m : ℤ} (h : m ≤ -n) : (2 : ℚ) ^ m ≤ 1 / 2 ^ n := by
  have hz := zpow_le_zpow_right₀ (by norm_num : (1 : ℚ) ≤ 2) h
  rwa [zpow_neg, zpow_natCast, inv_eq_one_div] at hz

/-- The error of a rounded number is bounded by its magnitude. -/
theorem Nearest.near_of_le {v b : ℚ} {z : Float} (h : Nearest v z) (hv : |v| ≤ b)
    (hb : b ≤ 2 ^ (64 : ℤ)) : Near v (b / 2 ^ 53 + 1 / 2 ^ 60) z := by
  have hr : (2 : ℚ) ^ (64 : ℤ) ≤ 2 ^ (1023 : ℤ) := zpow_le_zpow_right₀ (by norm_num) (by norm_num)
  obtain ⟨hf, hr⟩ := h.rounds ((hv.trans hb).trans hr)
  refine ⟨hf, hr.abs_value_sub_le.trans (add_le_add ?_ ?_)⟩
  · exact div_le_div_of_nonneg_right hv (by positivity)
  · exact zpow_neg_le_of_le (by norm_num)

/-- A rounded number of magnitude up to 8 is off by less than `slack`. -/
theorem Nearest.near {v : ℚ} {z : Float} (h : Nearest v z) (hv : |v| ≤ 8) : Near v slack z := by
  obtain ⟨hf, hn⟩ := h.near_of_le hv (by norm_num)
  exact ⟨hf, hn.trans (by norm_num [slack])⟩

namespace Near

variable {a b c d p q r : ℚ} {x y z : Float}

theorem abs_val_le (h : Near c b x) : |val x| ≤ |c| + b := by
  have ht := abs_sub_abs_le_abs_sub (val x) c
  have hn := h.near
  linarith

theorem bounds (h : Near c b x) : c - b ≤ val x ∧ val x ≤ c + b := by
  obtain ⟨hl, hu⟩ := abs_le.1 h.near
  exact ⟨by linarith, by linarith⟩

theorem isNaN (h : Near c b x) : x.isNaN = false :=
  isNaN_of_isFinite h.finite

/-- A number that is no distance away is the exact value. -/
theorem val_eq (h : Near c 0 x) : val x = c :=
  sub_eq_zero.1 (abs_nonpos_iff.1 h.near)

theorem mono (h : Near c b x) (hcd : |c - d| + b ≤ p) : Near d p x := by
  refine ⟨h.finite, ?_⟩
  have ht := abs_sub_le (val x) c d
  have hn := h.near
  linarith

theorem neg (h : Near c b x) : Near (-c) b (-x) := by
  refine ⟨by rw [isFinite_neg_eq]; exact h.finite, ?_⟩
  rw [val_neg, show -val x - -c = -(val x - c) by ring, abs_neg]
  exact h.near

theorem of_nearest {v : ℚ} (h : Nearest v z) (hv : |v - c| ≤ b) (h8 : |c| + b ≤ 8) :
    Near c (b + slack) z := by
  have ht := abs_sub_abs_le_abs_sub v c
  exact (h.near (by linarith)).mono (by rw [add_comm]; linarith)

theorem add (hx : Near a p x) (hy : Near b q y) (h8 : |a + b| + (p + q) ≤ 8) :
    Near (a + b) (p + q + slack) (x + y) := by
  refine of_nearest (nearest_add hx.finite hy.finite) ?_ h8
  rw [show val x + val y - (a + b) = (val x - a) + (val y - b) by ring]
  exact (abs_add_le _ _).trans (add_le_add hx.near hy.near)

theorem sub (hx : Near a p x) (hy : Near b q y) (h8 : |a - b| + (p + q) ≤ 8) :
    Near (a - b) (p + q + slack) (x - y) := by
  refine of_nearest (nearest_sub hx.finite hy.finite) ?_ h8
  rw [show val x - val y - (a - b) = (val x - a) - (val y - b) by ring]
  exact (abs_sub _ _).trans (add_le_add hx.near hy.near)

theorem abs_mul_le (hx : Near 0 p x) (hy : Near 0 q y) : |val x * val y| ≤ p * q := by
  have h1 := hx.abs_val_le
  have h2 := hy.abs_val_le
  rw [abs_zero, zero_add] at h1 h2
  rw [abs_mul]
  exact mul_le_mul h1 h2 (abs_nonneg _) ((abs_nonneg _).trans h1)

theorem mul (hx : Near 0 p x) (hy : Near 0 q y) (h8 : p * q ≤ 8) :
    Near 0 (p * q + slack) (x * y) := by
  refine of_nearest (nearest_mul hx.finite hy.finite) ?_ (by rw [abs_zero, zero_add]; exact h8)
  rw [sub_zero]
  exact abs_mul_le hx hy

theorem fused (hx : Near 0 p x) (hy : Near 0 q y) (hz : Near c r z)
    (h8 : |c| + (p * q + r) ≤ 8) : Near c (p * q + r + slack) (fused x y z) := by
  refine of_nearest (nearest_fused hx.finite hy.finite hz.finite) ?_ h8
  rw [show val x * val y + val z - c = val x * val y + (val z - c) by ring]
  exact (abs_add_le _ _).trans (add_le_add (abs_mul_le hx hy) hz.near)

theorem div (hx : Near 0 p x) (hy : Near c q y) (hd : 0 < d) (hdc : d ≤ c - q)
    (h8 : p / d ≤ 8) : Near 0 (p / d + slack) (x / y) := by
  have hv : d ≤ val y := hdc.trans hy.bounds.1
  have hp := hx.abs_val_le
  rw [abs_zero, zero_add] at hp
  refine of_nearest (nearest_div hx.finite hy.finite (by linarith)) ?_
    (by rw [abs_zero, zero_add]; exact h8)
  rw [sub_zero, abs_div, abs_of_pos (by linarith : (0 : ℚ) < val y)]
  exact div_le_div₀ ((abs_nonneg _).trans hp) hp hd hv

end Near

end QueryForecast.Numeric
