import Mathlib.Order.WithBot
import QueryForecast.Proofs.Numeric.Ordered

/-!
# The order of defined doubles

A double that is not undefined stands for a rational number or for one of the two infinities, and
compares as what it stands for. So whatever holds in a linear order holds of defined doubles.

* `extended` — what a defined double stands for.
* `compare_eq_compare_extended` — defined doubles compare as what they stand for.
* `lt_iff_extended`, `le_iff_extended`, `beq_iff_extended` — the comparisons of a program.
-/

namespace QueryForecast.Numeric

open Float.Model Float.Model.UnpackedFloat

/-- A rational number, or the end of all of them. -/
def extendedValue : UnpackedFloat → WithBot (WithTop ℚ)
  | .infinity .negative => ⊥
  | .infinity .positive => ⊤
  | f => ((value f : WithTop ℚ) : WithBot (WithTop ℚ))

/-- What a defined double stands for. -/
def extended (x : Float) : WithBot (WithTop ℚ) :=
  extendedValue (unpacked x)

variable {x y : Float}

theorem extended_of_isFinite (h : x.isFinite = true) :
    extended x = ((val x : WithTop ℚ) : WithBot (WithTop ℚ)) := by
  rw [isFinite_eq] at h
  unfold extended val
  cases hu : unpacked x with
  | infinity s => rw [hu] at h; cases h
  | notANumber => rw [hu] at h; cases h
  | zero s => rfl
  | finite s m e hm => rfl

/-- Finite numbers lie between the infinities. -/
theorem compare_infinity {f : UnpackedFloat} (h : f.isFinite = true) (s : Sign) :
    f.compare (.infinity s) = some (match s with | .negative => .gt | .positive => .lt) := by
  cases f with
  | infinity s => cases h
  | notANumber => cases h
  | zero s' => cases s <;> rfl
  | finite s' m e hm => cases s <;> cases s' <;> rfl

/-- **Defined doubles compare as what they stand for.** -/
theorem compare_eq_compare_extended (hx : x.isNaN = false) (hy : y.isNaN = false) :
    (unpacked x).compare (unpacked y) = some (compare (extended x) (extended y)) := by
  have hbot (q : ℚ) : (⊥ : WithBot (WithTop ℚ)) < ((q : WithTop ℚ) : WithBot (WithTop ℚ)) :=
    WithBot.bot_lt_coe _
  have htop (q : ℚ) : ((q : WithTop ℚ) : WithBot (WithTop ℚ)) < ⊤ :=
    WithBot.coe_lt_coe.2 (WithTop.coe_lt_top q)
  have hends : (⊥ : WithBot (WithTop ℚ)) < ⊤ := bot_lt_top
  obtain hxf | ⟨s, hs⟩ := finite_or_infinite hx <;> obtain hyf | ⟨s', hs'⟩ := finite_or_infinite hy
  · rw [compare_eq_compare_value (fits_unpacked x) (fits_unpacked y) hxf hyf,
      extended_of_isFinite hxf, extended_of_isFinite hyf]
    change some (compare (val x) (val y)) = _
    rcases lt_trichotomy (val x) (val y) with h | h | h
    · rw [compare_lt_iff_lt.2 h, compare_lt_iff_lt.2 (by exact_mod_cast h)]
    · rw [h, compare_eq_iff_eq.2 rfl, compare_eq_iff_eq.2 rfl]
    · rw [compare_gt_iff_gt.2 h, compare_gt_iff_gt.2 (by exact_mod_cast h)]
  · rw [hs', compare_infinity (f := unpacked x) hxf, extended_of_isFinite hxf, extended, hs']
    cases s' with
    | negative => exact congrArg some (compare_gt_iff_gt.2 (hbot _)).symm
    | positive => exact congrArg some (compare_lt_iff_lt.2 (htop _)).symm
  · rw [hs, compare_swap, compare_infinity (f := unpacked y) hyf, extended_of_isFinite hyf, extended, hs]
    cases s with
    | negative => exact congrArg some (compare_lt_iff_lt.2 (hbot _)).symm
    | positive => exact congrArg some (compare_gt_iff_gt.2 (htop _)).symm
  · rw [extended, extended, hs, hs']
    cases s <;> cases s'
    · exact congrArg some (compare_eq_iff_eq.2 rfl).symm
    · exact congrArg some (compare_lt_iff_lt.2 hends).symm
    · exact congrArg some (compare_gt_iff_gt.2 hends).symm
    · exact congrArg some (compare_eq_iff_eq.2 rfl).symm

theorem lt_iff_extended (hx : x.isNaN = false) (hy : y.isNaN = false) :
    x < y ↔ extended x < extended y := by
  rw [lt_iff_compare, compare_eq_compare_extended hx hy, Option.some_inj]
  exact compare_lt_iff_lt

theorem le_iff_extended (hx : x.isNaN = false) (hy : y.isNaN = false) :
    x ≤ y ↔ extended x ≤ extended y := by
  rw [le_iff_compare, compare_eq_compare_extended hx hy]
  show (compare (extended x) (extended y)).isLE = true ↔ _
  rw [← not_lt, ← compare_gt_iff_gt]
  cases compare (extended x) (extended y) <;> simp

theorem beq_iff_extended (hx : x.isNaN = false) (hy : y.isNaN = false) :
    (x == y) = true ↔ extended x = extended y := by
  show ((unpacked x).compare (unpacked y) == some .eq) = true ↔ _
  rw [compare_eq_compare_extended hx hy, beq_iff_eq, Option.some_inj]
  exact compare_eq_iff_eq

end QueryForecast.Numeric
