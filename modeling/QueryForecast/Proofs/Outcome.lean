import QueryForecast.Proofs.Numeric.Logarithm
import QueryForecast.Target

/-!
# Valid outcomes

Outcomes are validated once, before they are recorded or trained on. What is valid is a number in the
range of its target, and stays a finite number on the scale that models are fitted on.

* `Target.accepts_iff` — what a valid outcome is.
* `Target.isFinite_toScore` — it is finite on the scale that is fitted.
-/

namespace QueryForecast.Target

open Numeric

variable {t : Target} {y : Float}

/-- An outcome is valid when it is finite and not negative, and a fraction when it is also not above
one. -/
theorem accepts_iff :
    t.accepts y = true ↔ y.isFinite = true ∧ 0.0 ≤ y ∧ (t = .selectivity → y ≤ 1.0) := by
  unfold accepts outcomeFault?
  by_cases hf : y.isFinite = true
  · have h0 : ¬ y < 0.0 ↔ 0.0 ≤ y := by
      rw [lt_iff_val_lt hf val_zero.1, le_iff_val_le val_zero.1 hf, not_lt]
    have h1 : ¬ 1.0 < y ↔ y ≤ 1.0 := by
      rw [lt_iff_val_lt (by decide) hf, le_iff_val_le hf (by decide), not_lt]
    rw [if_neg (by simpa using hf), ← h0, ← h1]
    split
    · simp_all
    · split <;> simp_all
  · simp [hf]

/-- **A valid outcome is finite on the scale that is fitted.** -/
theorem isFinite_toScore (h : t.accepts y = true) : (t.toScore y).isFinite = true := by
  obtain ⟨hf, h0, -⟩ := accepts_iff.1 h
  cases t with
  | selectivity => exact hf
  | cardinality =>
    apply isFinite_logOnePlus hf
    rwa [le_iff_val_le val_zero.1 hf, val_zero.2] at h0

end QueryForecast.Target
