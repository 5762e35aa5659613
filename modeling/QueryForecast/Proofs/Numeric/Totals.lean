import QueryForecast.Proofs.Numeric.Places
import QueryForecast.Proofs.Numeric.Ratios
import QueryForecast.Proofs.Numeric.Undefined

/-!
# Totals of doubles that are not negative

Adding a double that is not negative takes nothing away, whatever is rounded and also past the range of
doubles. So no part of a total is above it, and a share of the total is not negative.

* `isNaN_add_eq_false`, `isNaN_div_eq_false` — only of defined numbers there is a defined result.
* `le_add_of_zero_le` — no side of a sum is above it.
* `zero_le_sum` — a total is not negative, and none of its parts is above it.
* `zero_le_div` — a share of a number that is not negative is not negative.
-/

namespace QueryForecast.Numeric

open Float.Model Float.Model.UnpackedFloat

variable {x y : Float}

/-! ## Defined results -/

theorem isNaN_of_le (h : x ≤ y) : x.isNaN = false ∧ y.isNaN = false := by
  rw [le_iff_compare] at h
  constructor
  · by_contra hx
    rw [(compare_of_isNaN (by simpa using hx) _).1] at h
    cases h
  · by_contra hy
    rw [(compare_of_isNaN (by simpa using hy) _).2] at h
    cases h

theorem isNaN_packed_notANumber : (packed .notANumber).isNaN = true := by
  rw [isNaN_eq, unpacked_packed (f := .notANumber) trivial]
  rfl

/-- Both sides of a defined result are defined, if the operation passes on what is not. -/
theorem isNaN_of_isNaN_packed {op : UnpackedFloat → UnpackedFloat → UnpackedFloat}
    (hl : ∀ f, op .notANumber f = .notANumber) (hr : ∀ f, op f .notANumber = .notANumber)
    (h : (packed (op (unpacked x) (unpacked y))).isNaN = false) :
    x.isNaN = false ∧ y.isNaN = false := by
  have hnan := isNaN_packed_notANumber
  rw [isNaN_eq, isNaN_eq]
  cases hx : unpacked x with
  | notANumber => rw [hx, hl] at h; cases hnan.symm.trans h
  | _ =>
    cases hy : unpacked y with
    | notANumber => rw [hy, hr] at h; cases hnan.symm.trans h
    | _ => exact ⟨rfl, rfl⟩

theorem isNaN_add_eq_false (h : (x + y).isNaN = false) : x.isNaN = false ∧ y.isNaN = false :=
  isNaN_of_isNaN_packed (fun _ => rfl) (fun f => by cases f <;> rfl) h

theorem isNaN_mul_eq_false (h : (x * y).isNaN = false) : x.isNaN = false ∧ y.isNaN = false :=
  isNaN_of_isNaN_packed (fun _ => rfl) (fun f => by cases f <;> rfl) h

theorem isNaN_div_eq_false (h : (x / y).isNaN = false) : x.isNaN = false ∧ y.isNaN = false :=
  isNaN_of_isNaN_packed (fun _ => rfl) (fun f => by cases f <;> rfl) h

theorem isNaN_abs (x : Float) : x.abs.isNaN = x.isNaN := by
  rw [isNaN_eq, unpacked_abs, isNaN_eq]
  cases unpacked x <;> rfl

/-- An absolute value is not negative. -/
theorem zero_le_abs (h : x.isNaN = false) : 0.0 ≤ x.abs := by
  rcases finite_or_infinite h with hf | ⟨s, hs⟩
  · rw [le_iff_val_le val_zero.1 (by rwa [isFinite_abs]), val_zero.2, val_abs]
    exact abs_nonneg _
  · exact le_of_infinite (isNaN_of_isFinite val_zero.1) (by rw [unpacked_abs, hs]; rfl)

/-! ## Sums -/

/-- A double that is not negative is finite or positive infinity. -/
theorem finite_or_infinite_of_zero_le (h : 0.0 ≤ x) :
    (x.isFinite = true ∧ 0 ≤ val x) ∨ unpacked x = .infinity .positive := by
  rcases finite_or_infinite (isNaN_of_le h).2 with hf | ⟨s, hs⟩
  · rw [le_iff_val_le val_zero.1 hf, val_zero.2] at h
    exact .inl ⟨hf, h⟩
  · rw [le_iff_compare, hs] at h
    cases s with
    | positive => exact .inr hs
    | negative => cases h

theorem unpacked_add_infinity (hx : 0.0 ≤ x) (hy : unpacked y = .infinity .positive) :
    unpacked (x + y) = .infinity .positive ∧ unpacked (y + x) = .infinity .positive := by
  have hinf : unpacked (packed (.infinity .positive)) = .infinity .positive :=
    unpacked_packed (f := .infinity .positive) trivial
  rw [add_eq, add_eq, hy]
  rcases finite_or_infinite_of_zero_le hx with ⟨hf, -⟩ | hi
  · rw [isFinite_eq] at hf
    cases hu : unpacked x with
    | infinity s => rw [hu] at hf; cases hf
    | notANumber => rw [hu] at hf; cases hf
    | zero s => exact ⟨hinf, hinf⟩
    | finite s m e hm => exact ⟨hinf, hinf⟩
  · rw [hi]
    exact ⟨hinf, hinf⟩

/-- **No side of a sum of doubles that are not negative is above it.** -/
theorem le_add_of_zero_le (hx : 0.0 ≤ x) (hy : 0.0 ≤ y) : x ≤ x + y ∧ y ≤ x + y := by
  obtain ⟨hnx, hny⟩ := And.intro (isNaN_of_le hx).2 (isNaN_of_le hy).2
  rcases finite_or_infinite_of_zero_le hx with ⟨hxf, hx0⟩ | hxi
  · rcases finite_or_infinite_of_zero_le hy with ⟨hyf, hy0⟩ | hyi
    · have hn := nearest_add hxf hyf
      exact ⟨hn.ge_of_ge hxf (le_add_of_nonneg_right hy0), hn.ge_of_ge hyf (le_add_of_nonneg_left hx0)⟩
    · have hs := (unpacked_add_infinity hx hyi).1
      exact ⟨le_of_infinite hnx hs, le_of_infinite hny hs⟩
  · have hs := (unpacked_add_infinity hy hxi).2
    exact ⟨le_of_infinite hnx hs, le_of_infinite hny hs⟩

theorem float_le_trans {z : Float} (hxy : x ≤ y) (hyz : y ≤ z) : x ≤ z := by
  obtain ⟨hx, hy⟩ := isNaN_of_le hxy
  have hz := (isNaN_of_le hyz).2
  exact (le_iff_extended hx hz).2
    (((le_iff_extended hx hy).1 hxy).trans ((le_iff_extended hy hz).1 hyz))

/-- **A defined total of doubles that are not negative is not negative, and no part is above it.** -/
theorem zero_le_sum {xs : List Float} (h : ∀ x ∈ xs, x.isNaN = false → 0.0 ≤ x)
    (hs : (sum xs).isNaN = false) : 0.0 ≤ sum xs ∧ ∀ x ∈ xs, x ≤ sum xs := by
  induction xs using List.reverseRecOn with
  | nil => exact ⟨by decide, nofun⟩
  | append_singleton xs last ih =>
    have hadd : sum (xs ++ [last]) = sum xs + last := by
      unfold sum
      rw [List.foldl_append]
      rfl
    rw [hadd] at hs ⊢
    obtain ⟨hxs, hlast⟩ := isNaN_add_eq_false hs
    obtain ⟨h0, hle⟩ := ih (fun x hx => h x (List.mem_append_left _ hx)) hxs
    obtain ⟨hl, hr⟩ :=
      le_add_of_zero_le h0 (h last (List.mem_append_right _ (List.mem_singleton.2 rfl)) hlast)
    refine ⟨float_le_trans h0 hl, fun x hx => ?_⟩
    rcases List.mem_append.1 hx with hx | hx
    · exact float_le_trans (hle x hx) hl
    · rw [List.mem_singleton.1 hx]
      exact hr

/-! ## Shares -/

theorem unpacked_infinity_div (hx : unpacked x = .infinity .positive) (hy : y.isFinite)
    (h0 : 0 < val y) : unpacked (x / y) = .infinity .positive := by
  rw [isFinite_eq] at hy
  rw [div_eq, hx]
  cases hu : unpacked y with
  | infinity s => rw [hu] at hy; cases hy
  | notANumber => rw [hu] at hy; cases hy
  | zero s => rw [val, hu] at h0; exact absurd h0 (lt_irrefl _)
  | finite s m e hm =>
    cases s with
    | positive => exact unpacked_packed (f := .infinity .positive) trivial
    | negative =>
      rw [val, hu] at h0
      have hneg : value (.finite .negative m e hm) ≤ 0 := neg_nonpos.2 (by positivity)
      exact absurd h0 hneg.not_gt

/-- **A defined share of a number that is not negative is not negative.** -/
theorem zero_le_div (hx : 0.0 ≤ x) (hy : 0.0 < y) (h : (x / y).isNaN = false) : 0.0 ≤ x / y := by
  have hzero := val_zero
  rcases finite_or_infinite_of_zero_le (le_of_float_lt hy) with ⟨hyf, -⟩ | hyi
  · rw [lt_iff_val_lt hzero.1 hyf, hzero.2] at hy
    rcases finite_or_infinite_of_zero_le hx with ⟨hxf, hx0⟩ | hxi
    · refine (nearest_div hxf hyf hy.ne').ge_of_ge hzero.1 ?_
      rw [hzero.2]
      exact div_nonneg hx0 hy.le
    · exact le_of_infinite (isNaN_of_isFinite hzero.1) (unpacked_infinity_div hxi hyf hy)
  · rcases finite_or_infinite_of_zero_le hx with ⟨hxf, -⟩ | hxi
    · obtain ⟨hf, hv⟩ := isFinite_div_infinity hxf hyi
      rw [le_iff_val_le hzero.1 hf, hzero.2, hv]
    · -- The share of an infinite total in another is not defined.
      rw [div_eq, hxi, hyi] at h
      cases isNaN_packed_notANumber.symm.trans h

/-- A number of things, as a double, is above zero. -/
theorem zero_lt_ofNat {n : ℕ} (h : 0 < n) : 0.0 < ofNat n := by
  have hzero := val_zero
  by_cases hn : n < 0x20000000000000
  · obtain ⟨hf, hv⟩ := val_ofNat hn
    rw [lt_iff_val_lt hzero.1 hf, hv, hzero.2]
    exact_mod_cast h
  · have h1 : val 1.0 ≤ n := by
      rw [near_one.val_eq]
      exact_mod_cast h
    have hle := (nearest_ofNat (not_lt.1 hn)).ge_of_ge near_one.finite h1
    obtain ⟨hone, hd⟩ := isNaN_of_le hle
    have hlt : (0.0 : Float) < 1.0 := by decide
    have hz := isNaN_of_isFinite hzero.1
    exact (lt_iff_extended hz hd).2
      (((lt_iff_extended hz hone).1 hlt).trans_le ((le_iff_extended hone hd).1 hle))

end QueryForecast.Numeric
