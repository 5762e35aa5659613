import QueryForecast.Numeric.Order
import QueryForecast.Proofs.Numeric.Comparing

/-!
# The order of bit patterns

Sorting goes by the place of a bit pattern among all of them, comparing by the number that it stands
for.

* `magnitude`, `magnitude_lt` — the magnitude of a finite double grows with its bit pattern.
* `val_le_of_precedes` — finite doubles in the order of their places are in the order of their numbers.
* `beq_iff_val_eq` — finite doubles are equal when they stand for the same number.
* `Nearest.infinite`, `Nearest.rounds_of_isFinite` — what is past the range of doubles keeps its side,
  and what is not is rounded.
* `lt_of_infinite` — every finite double is below positive infinity.
-/

namespace QueryForecast.Numeric

open Float.Model Float.Model.UnpackedFloat

/-! ## Places -/

/-- The magnitude of a finite double with the given exponent and fraction fields. -/
def magnitude (exponent fraction : ℕ) : ℚ :=
  if exponent = 0 then fraction * 2 ^ (-1074 : ℤ)
  else (0x10000000000000 + fraction : ℕ) * 2 ^ ((exponent : ℤ) - 1075)

theorem magnitude_nonneg (e f : ℕ) : 0 ≤ magnitude e f := by
  unfold magnitude
  split <;> positivity

theorem value_ofFields (s : Sign) {e : ℕ} (f : ℕ) (he : e ≠ 2047) :
    value (ofFields s e f) = signed s (magnitude e f) := by
  unfold ofFields magnitude
  rw [if_neg he]
  split
  · split
    · rename_i hf
      subst hf
      cases s <;> simp [value, signed]
    · rfl
  · rfl

theorem exponentField_ne {x : Float} (h : x.isFinite) : exponentField x ≠ 2047 := by
  intro he
  rw [isFinite_eq, unpacked_eq, he] at h
  unfold ofFields at h
  rw [if_pos rfl] at h
  split at h <;> cases h

theorem val_eq_magnitude {x : Float} (h : x.isFinite) :
    val x = signed (signOf (signBit x)) (magnitude (exponentField x) (fractionField x)) := by
  rw [val, unpacked_eq, value_ofFields _ _ (exponentField_ne h)]

/-- A larger fraction, or a larger exponent whatever the fractions are, makes a larger magnitude. -/
theorem magnitude_lt {e f e' f' : ℕ} (hf : f < 0x10000000000000) (hf' : f' < 0x10000000000000)
    (h : e * 0x10000000000000 + f < e' * 0x10000000000000 + f') :
    magnitude e f < magnitude e' f' := by
  have hlt {m n : ℕ} (hmn : m < n) (t : ℤ) : (m : ℚ) * 2 ^ t < n * 2 ^ t :=
    mul_lt_mul_of_pos_right (by exact_mod_cast hmn) (by positivity)
  unfold magnitude
  rcases (show e < e' ∨ e = e' by omega) with he | rfl
  · rw [if_neg (show ¬ e' = 0 by omega)]
    split
    · have h1 := hlt (show f < 0x10000000000000 + f' by omega) (-1074)
      have h2 : (2 : ℚ) ^ (-1074 : ℤ) ≤ 2 ^ ((e' : ℤ) - 1075) :=
        zpow_le_zpow_right₀ (by norm_num) (by omega)
      exact h1.trans_le (mul_le_mul_of_nonneg_left h2 (by positivity))
    · exact mul_zpow_lt_of_exponent_lt (by omega) (by omega) (by omega)
  · split
    · exact hlt (by omega) _
    · exact hlt (by omega) _

theorem magnitude_mono {e f e' f' : ℕ} (hf : f < 0x10000000000000) (hf' : f' < 0x10000000000000)
    (h : e * 0x10000000000000 + f ≤ e' * 0x10000000000000 + f') :
    magnitude e f ≤ magnitude e' f' := by
  rcases h.lt_or_eq with hlt | heq
  · exact (magnitude_lt hf hf' hlt).le
  · obtain rfl : e = e' := by omega
    obtain rfl : f = f' := by omega
    rfl

theorem toNat_rank (x : Float) :
    (rank x).toNat =
      if signBit x then 0xffffffffffffffff - x.toBits.toNat
      else 0x8000000000000000 + x.toBits.toNat := by
  have hx := x.toBits.toNat_lt
  have hlt : x.toBits < 0x8000000000000000 ↔ x.toBits.toNat < 0x8000000000000000 :=
    UInt64.lt_iff_toNat_lt
  unfold rank signBit
  by_cases h : 0x8000000000000000 ≤ x.toBits.toNat
  · rw [if_neg (by rw [hlt]; omega), if_pos (decide_eq_true h), UInt64.toNat_not]
    rfl
  · rw [if_pos (hlt.2 (by omega)), if_neg (by simpa using h), UInt64.toNat_or, Nat.or_comm]
    exact (Nat.two_pow_add_eq_or_of_lt (show x.toBits.toNat < 2 ^ 63 by omega) 1).symm

/-- **Finite doubles in the order of their places are in the order of their numbers.** -/
theorem val_le_of_precedes {x y : Float} (hx : x.isFinite) (hy : y.isFinite)
    (h : precedes x y = true) : val x ≤ val y := by
  have hr : (rank x).toNat ≤ (rank y).toNat := of_decide_eq_true h
  rw [val_eq_magnitude hx, val_eq_magnitude hy]
  have hbx := x.toBits.toNat_lt
  have hby := y.toBits.toNat_lt
  have hpx := magnitude_nonneg (exponentField x) (fractionField x)
  have hpy := magnitude_nonneg (exponentField y) (fractionField y)
  have hfx := fractionField_lt x
  have hfy := fractionField_lt y
  cases hsx : signBit x <;> cases hsy : signBit y
  all_goals
    simp only [toNat_rank, hsx, hsy, if_true, Bool.false_eq_true, if_false] at hr
    simp only [signBit, decide_eq_true_eq, decide_eq_false_iff_not] at hsx hsy
  · refine magnitude_mono hfx hfy ?_
    simp only [exponentField, fractionField]
    omega
  · omega
  · exact (neg_nonpos.2 hpx).trans hpy
  · refine neg_le_neg (magnitude_mono hfy hfx ?_)
    simp only [exponentField, fractionField]
    omega

/-! ## Equality -/

theorem beq_iff_val_eq {x y : Float} (hx : x.isFinite) (hy : y.isFinite) :
    (x == y) = true ↔ val x = val y := by
  have hc := compare_eq_compare_value (fits_unpacked x) (fits_unpacked y) hx hy
  show ((unpacked x).compare (unpacked y) == some .eq) = true ↔ _
  rw [hc, beq_iff_eq, Option.some_inj]
  exact compare_eq_iff_eq

/-! ## Past the range -/

theorem eq_of_settled_finite {s s' : Sign} {m : ℕ} {e : ℤ} {hm : 0 < m}
    (h : settled (.finite s m e hm) = .infinity s') : s' = s := by
  simp only [settled] at h
  split at h
  · cases h
    rfl
  · cases h

/-- What is settled to an infinity is not zero, and the infinity has its sign. -/
theorem of_settled_ofUnits {s s' : Sign} {r : ℕ} {t : ℤ}
    (h : settled (ofUnits s r t) = .infinity s') : s' = s ∧ r ≠ 0 := by
  unfold ofUnits at h
  split at h
  · cases h
  · rename_i hr
    refine ⟨?_, hr⟩
    split at h
    · exact eq_of_settled_finite h
    · exact eq_of_settled_finite h

/-- **A positive number past the range of doubles becomes positive infinity.** -/
theorem Nearest.infinite {v : ℚ} {z : Float} (h : Nearest v z) (hv : 0 ≤ v)
    (hz : z.isFinite = false) : unpacked z = .infinity .positive := by
  obtain hf | ⟨s', hs⟩ := finite_or_infinite h.isNaN
  · rw [hf] at hz
    cases hz
  obtain ⟨f, ⟨s, r, t, rfl, -, -, hnear, -⟩, hu⟩ := h
  rw [hs] at hu ⊢
  obtain ⟨rfl, hr⟩ := of_settled_ofUnits hu.symm
  cases s' with
  | positive => rfl
  | negative =>
    have hq : 0 ≤ v / 2 ^ t := by positivity
    have hr' : (1 : ℚ) ≤ r := by exact_mod_cast Nat.one_le_iff_ne_zero.2 hr
    have hl := (abs_le.1 hnear).1
    simp only [signed] at hl
    linarith

/-- What is not past the range of doubles is rounded. -/
theorem Nearest.rounds_of_isFinite {v : ℚ} {z : Float} (h : Nearest v z) (hz : z.isFinite) :
    Rounds v (unpacked z) := by
  obtain ⟨f, hf, hu⟩ := h
  rw [isFinite_eq, hu] at hz
  rw [hu]
  cases f with
  | infinity s => exact hf
  | notANumber => exact hf
  | zero s => exact hf
  | finite s m e hm =>
    simp only [settled] at hz ⊢
    split at hz
    · cases hz
    · rename_i he
      rwa [if_neg he]

theorem lt_of_infinite {x z : Float} (hx : x.isFinite) (hz : unpacked z = .infinity .positive) :
    x < z := by
  rw [isFinite_eq] at hx
  rw [lt_iff_compare, hz]
  cases hu : unpacked x with
  | infinity s => rw [hu] at hx; cases hx
  | notANumber => rw [hu] at hx; cases hx
  | zero s => rfl
  | finite s m e hm => cases s <;> rfl

end QueryForecast.Numeric
