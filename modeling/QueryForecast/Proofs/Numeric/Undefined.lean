import QueryForecast.Numeric.Order
import QueryForecast.Proofs.Numeric.Comparing

/-!
# Where undefined numbers stay and where they do not come up

* `compare_of_isNaN` — an undefined number compares with none, so it is in no interval, and
  `clamp_of_isNaN` moves it into none.
* `isNaN_toFloat_div` — the quotient of two whole numbers is defined.
* `isNaN_percentile` — so is a percentile of defined numbers.
-/

namespace QueryForecast.Numeric

open Float.Model Float.Model.UnpackedFloat

variable {x : Float}

theorem unpacked_of_isNaN (h : x.isNaN = true) : unpacked x = .notANumber := by
  rw [isNaN_eq] at h
  cases hu : unpacked x with
  | notANumber => rfl
  | infinity s => rw [hu] at h; cases h
  | zero s => rw [hu] at h; cases h
  | finite s m e hm => rw [hu] at h; cases h

/-- An undefined number compares with none. -/
theorem compare_of_isNaN (h : x.isNaN = true) (f : UnpackedFloat) :
    (unpacked x).compare f = none ∧ f.compare (unpacked x) = none := by
  rw [unpacked_of_isNaN h]
  exact ⟨rfl, by cases f <;> rfl⟩

theorem not_le_of_isNaN (h : x.isNaN = true) (y : Float) : ¬ y ≤ x := by
  rw [le_iff_compare, (compare_of_isNaN h _).2]
  exact Bool.false_ne_true

theorem beq_of_isNaN (h : x.isNaN = true) (y : Float) : (x == y) = false := by
  show ((unpacked x).compare (unpacked y) == some .eq) = false
  rw [(compare_of_isNaN h _).1]
  rfl

/-- Moving an undefined number into an interval leaves it undefined. -/
theorem clamp_of_isNaN (h : x.isNaN = true) (low high : Float) : clamp low high x = x := by
  have hl : ¬ x < low := by
    rw [lt_iff_compare, (compare_of_isNaN h _).1]
    exact nofun
  have hh : ¬ high < x := by
    rw [lt_iff_compare, (compare_of_isNaN h _).2]
    exact nofun
  unfold clamp
  rw [if_neg hl, if_neg hh]

/-- A whole number is a finite double, and at least one when it is not zero. -/
theorem toFloat_bounds (n : UInt64) :
    n.toFloat.isFinite = true ∧ (0 < n → 1 ≤ val n.toFloat) := by
  have hr := rounds_normalize (n.toNat : ℤ) 0 .positive
  rw [zpow_zero, mul_one, Int.cast_natCast] at hr
  have hn : |(n.toNat : ℚ)| ≤ 2 ^ (1023 : ℤ) := by
    have h64 : (n.toNat : ℚ) ≤ 2 ^ (64 : ℕ) := by exact_mod_cast n.toNat_lt.le
    rw [Nat.abs_cast]
    refine h64.trans ?_
    rw [← zpow_natCast]
    exact zpow_le_zpow_right₀ (by norm_num) (by norm_num)
  rw [unpacked_toFloat]
  obtain ⟨hf, hr⟩ := (nearest_packed hr).rounds hn
  refine ⟨hf, fun h => hr.le_value ⟨1, 0, by simp, by decide, by decide⟩ ?_⟩
  have h1 : 0 < n.toNat := UInt64.lt_iff_toNat_lt.1 h
  exact_mod_cast h1

/-- The share of some things among others is defined. -/
theorem isNaN_toFloat_div {m n : UInt64} (hn : 0 < n) : (m.toFloat / n.toFloat).isNaN = false := by
  obtain ⟨hm, -⟩ := toFloat_bounds m
  obtain ⟨hf, h1⟩ := toFloat_bounds n
  exact (nearest_div hm hf (by linarith [h1 hn])).isNaN

/-- A percentile of defined numbers is defined. -/
theorem isNaN_percentile {xs : List Float} (h : ∀ x ∈ xs, x.isNaN = false) (fraction : Float) :
    (percentile xs fraction).isNaN = false := by
  unfold percentile
  rw [List.getD_eq_getElem?_getD]
  cases hx : (ascending xs)[percentileIndex xs.length fraction]? with
  | none => decide
  | some x => exact h x ((List.mergeSort_perm xs precedes).mem_iff.1 (List.mem_of_getElem? hx))

end QueryForecast.Numeric
