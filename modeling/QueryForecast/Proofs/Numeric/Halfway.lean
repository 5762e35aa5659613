import QueryForecast.Proofs.Numeric.Ordered

/-!
# The point halfway between two doubles

The point halfway between two numbers is computed as `l + (u - l) / 2`, rounding three times. It still
lies between them, unless their difference is past the range of doubles: then it is infinite.

* `le_val_sub_val` — different doubles are at least the least positive one apart.
* `rounded_half_mem` — half of a rounded difference is no larger than the difference.
* `middle_mem`, `unpacked_middle` — where the point halfway lies.
-/

namespace QueryForecast.Numeric

/-- Doubles are multiples of the least positive one. -/
theorem exists_val_eq_mul (x : Float) : ∃ k : ℤ, val x = k * 2 ^ (-1074 : ℤ) := by
  obtain ⟨k, j, hx, -, hj⟩ := isDouble_val x
  obtain ⟨n, hn⟩ := Int.le.dest hj
  refine ⟨k * 2 ^ n, ?_⟩
  rw [hx, ← hn, zpow_add₀ two_ne_zero, zpow_natCast, Int.cast_mul, Int.cast_pow, Int.cast_ofNat,
    mul_assoc, mul_comm (2 ^ (-1074 : ℤ))]

/-- Different doubles are at least the least positive one apart. -/
theorem le_val_sub_val {x y : Float} (h : val x < val y) : 2 ^ (-1074 : ℤ) ≤ val y - val x := by
  obtain ⟨k, hk⟩ := exists_val_eq_mul x
  obtain ⟨l, hl⟩ := exists_val_eq_mul y
  have hp : (0 : ℚ) < 2 ^ (-1074 : ℤ) := by positivity
  rw [hk, hl, mul_lt_mul_iff_of_pos_right hp, Int.cast_lt] at h
  have h1 : (1 : ℚ) ≤ l - k := by exact_mod_cast (by omega : (1 : ℤ) ≤ l - k)
  rw [hk, hl, ← sub_mul]
  exact le_mul_of_one_le_left hp.le h1

theorem isDouble_two_zpow {k : ℤ} (h : -1074 ≤ k) : IsDouble (2 ^ k) :=
  ⟨1, k, by simp, by decide, h⟩

theorem isDouble_zero : IsDouble 0 :=
  ⟨0, 0, by simp, by decide, by decide⟩

/-- Rounding a number and halving it, rounded again, gives no more than the number: there is a power
of two up to it, and twice that power is not passed over. -/
theorem rounded_half_mem {d : ℚ} {f g : Float.Model.UnpackedFloat} (hd : 2 ^ (-1074 : ℤ) ≤ d)
    (hf : Rounds d f) (hg : Rounds (value f / 2) g) : 0 ≤ value g ∧ value g ≤ d := by
  have hpos : 0 < d := lt_of_lt_of_le (by positivity) hd
  obtain ⟨k, hk, hk'⟩ := exists_mem_Ico_zpow hpos one_lt_two
  have hlt : (-1074 : ℤ) < k + 1 := (zpow_lt_zpow_iff_right₀ one_lt_two).1 (hd.trans_lt hk')
  have h0 := hf.le_value isDouble_zero hpos.le
  have h1 := hf.value_le (isDouble_two_zpow (by omega)) hk'.le
  rw [zpow_add_one₀ two_ne_zero] at h1
  exact ⟨hg.le_value isDouble_zero (by linarith),
    (hg.value_le (isDouble_two_zpow (by omega)) (by linarith)).trans hk⟩

theorem val_two : (2.0 : Float).isFinite = true ∧ val 2.0 = 2 := by
  obtain ⟨h1, h2⟩ := val_of_fields (x := 2.0) (e := 1024) (f := 0) (s := false) (by decide +kernel)
    (by decide +kernel) (by decide +kernel) (by omega) (by omega)
  refine ⟨h1, ?_⟩
  rw [h2]
  norm_num [signed, signOf]

variable {l u : Float}

/-- The point halfway between two numbers lies between them. -/
theorem middle_mem (hl : l.isFinite) (hu : u.isFinite) (h : val l < val u)
    (hd : (u - l).isFinite) :
    (l + (u - l) / 2.0).isFinite = true ∧ val l ≤ val (l + (u - l) / 2.0) ∧
      val (l + (u - l) / 2.0) ≤ val u := by
  have hd' := (nearest_sub hu hl).rounds_of_isFinite hd
  obtain ⟨h2f, h2⟩ := val_two
  have hq := nearest_div hd h2f (by rw [h2]; exact two_ne_zero)
  rw [h2] at hq
  have hv : |val (u - l) / 2| ≤ 2 ^ (1023 : ℤ) := by
    rw [abs_div, abs_two, div_le_iff₀ two_pos, ← zpow_add_one₀ two_ne_zero]
    exact (abs_val_lt (u - l)).le
  obtain ⟨hqf, hq'⟩ := hq.rounds hv
  obtain ⟨h0, hle⟩ := rounded_half_mem (le_val_sub_val h) hd' hq'
  have hw : IsDouble (max |val l| |val u|) := by
    rcases max_choice |val l| |val u| with he | he <;> rw [he]
    · exact (isDouble_val l).abs
    · exact (isDouble_val u).abs
  have h1 : val l ≤ val l + value (unpacked ((u - l) / 2.0)) := by linarith
  have h3 : val l + value (unpacked ((u - l) / 2.0)) ≤ val u := by linarith
  obtain ⟨hf, hr⟩ := (nearest_add hl hqf).finite_of_le hw (abs_le_max_abs_abs h1 h3)
    (max_lt (abs_val_lt l) (abs_val_lt u))
  exact ⟨hf, hr.le_value (isDouble_val l) h1, hr.value_le (isDouble_val u) h3⟩

/-- The difference of two numbers that is past the range of doubles makes the point halfway between
them infinite. -/
theorem unpacked_middle (hl : l.isFinite) (hu : u.isFinite) (h : val l < val u)
    (hd : (u - l).isFinite = false) :
    unpacked (l + (u - l) / 2.0) = .infinity .positive := by
  have hi := (nearest_sub hu hl).infinite (by linarith) hd
  have h2 : unpacked (2.0 : Float) = ofFields .positive 1024 0 := by
    rw [unpacked_eq, show exponentField 2.0 = 1024 by decide +kernel,
      show fractionField 2.0 = 0 by decide +kernel, show signBit 2.0 = false by decide +kernel]
    rfl
  have hq : unpacked ((u - l) / 2.0) = .infinity .positive := by
    rw [show (u - l) / 2.0 = packed (.div double (unpacked (u - l)) (unpacked 2.0)) from rfl, hi, h2]
    exact unpacked_packed (f := .infinity .positive) trivial
  rw [isFinite_eq] at hl
  rw [add_eq, hq]
  cases hx : unpacked l with
  | infinity s => rw [hx] at hl; cases hl
  | notANumber => rw [hx] at hl; cases hl
  | zero s => exact unpacked_packed (f := .infinity .positive) trivial
  | finite s m e hm => exact unpacked_packed (f := .infinity .positive) trivial

end QueryForecast.Numeric
