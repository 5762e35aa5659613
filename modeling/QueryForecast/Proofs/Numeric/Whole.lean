import Mathlib.Algebra.Order.Floor.Semiring
import Mathlib.Data.Rat.Floor
import QueryForecast.Numeric.Basic
import QueryForecast.Proofs.Numeric.Defined

/-!
# Whole parts

* `wholePart_eq` — the whole part of a number is the number rounded down, up to `2^64 - 1`;
  `wholePart_bounds` — below `2^64` the two are less than one apart.
* `val_ofInt` — whole numbers of up to 53 bits are exact, also negative ones.
-/

namespace QueryForecast.Numeric

open Float.Model Float.Model.UnpackedFloat

theorem roundToInt_positive (m : ℕ) (e : ℤ) :
    ∃ n : ℕ, roundToInt .positive m e = n ∧ (n : ℚ) ≤ m * 2 ^ e ∧ (m : ℚ) * 2 ^ e < n + 1 := by
  unfold roundToInt decreaseExponent shiftToExponent
  dsimp only
  set k : ℕ := (0 - (e - (e - 0).toNat : ℤ)).toNat with hk
  have hh : Holds (.ofMantissaAndAccuracy (m <<< (e - 0).toNat) .exact)
      ((m <<< (e - 0).toNat : ℕ) : ℚ) := rfl
  have hv : ((m <<< (e - 0).toNat : ℕ) : ℚ) / 2 ^ k = m * 2 ^ e := by
    rw [Nat.shiftLeft_eq]
    push_cast
    by_cases h : 0 ≤ e
    · obtain ⟨d, rfl⟩ := Int.eq_ofNat_of_zero_le h
      rw [show k = 0 by omega, show ((d : ℤ) - 0).toNat = d by omega, zpow_natCast]
      simp
    · obtain ⟨d, hd⟩ := Int.eq_ofNat_of_zero_le (show 0 ≤ -e by omega)
      rw [show k = d by omega, show (e - 0).toNat = 0 by omega, show e = -(d : ℤ) by omega,
        zpow_neg, zpow_natCast]
      simp [div_eq_mul_inv]
  obtain ⟨h1, h2⟩ := (hh.shiftRight k).bounds
  rw [hv] at h1 h2
  exact ⟨_, rfl, h1, h2⟩

theorem toNat_ofNatClamp (n : ℕ) : (UInt64.ofNatClamp n).toNat = min n 0xffffffffffffffff := by
  rcases Nat.lt_or_ge n UInt64.size with h | h
  · rw [UInt64.toNat_ofNatClamp_of_lt h, min_eq_left (Nat.le_of_lt_succ h)]
  · rw [UInt64.toNat_ofNatClamp_of_le h, min_eq_right (Nat.le_of_succ_le h)]
    rfl

/-- **The whole part is the number rounded down**, as far as 64 bits hold it. -/
theorem wholePart_eq {x : Float} (hf : x.isFinite) (h0 : 0 ≤ val x) :
    wholePart x = min ⌊val x⌋₊ 0xffffffffffffffff := by
  have hw : wholePart x = (UInt64.ofNatClamp ((unpacked x).toInt 0 (UInt64.size - 1)).toNat).toNat :=
    rfl
  rw [hw, toNat_ofNatClamp]
  rw [isFinite_eq] at hf
  unfold val at *
  congr 1
  cases hx : unpacked x with
  | infinity s => rw [hx] at hf; cases hf
  | notANumber => rw [hx] at hf; cases hf
  | zero s => exact Nat.floor_zero.symm
  | finite s m e hm =>
    rw [hx] at h0
    cases s with
    | negative =>
      have hneg : value (.finite .negative m e hm) < 0 := neg_lt_zero.2 (by positivity)
      exact absurd h0 (not_le.2 hneg)
    | positive =>
      obtain ⟨n, hn, hl, hlt⟩ := roundToInt_positive m e
      rw [show (UnpackedFloat.finite .positive m e hm).toInt 0 (UInt64.size - 1) = n from hn,
        Int.toNat_natCast]
      exact ((Nat.floor_eq_iff h0).2 ⟨hl, hlt⟩).symm

theorem wholePart_bounds {x : Float} (hf : x.isFinite) (h0 : 0 ≤ val x)
    (hu : val x < 2 ^ (64 : ℤ)) : (wholePart x : ℚ) ≤ val x ∧ val x < wholePart x + 1 := by
  have hlt : ⌊val x⌋₊ < 0xffffffffffffffff + 1 := by
    rw [Nat.floor_lt h0]
    norm_num at hu ⊢
    exact hu
  rw [wholePart_eq hf h0, min_eq_left (Nat.le_of_lt_succ hlt)]
  exact ⟨Nat.floor_le h0, Nat.lt_floor_add_one _⟩

/-- Whole numbers of up to 53 bits are exact, also negative ones. -/
theorem val_ofInt {k : ℤ} (h : |k| < 0x20000000000000) :
    (Float.ofInt k).isFinite = true ∧ val (Float.ofInt k) = k := by
  cases k with
  | ofNat n =>
    obtain ⟨h1, h2⟩ := val_ofNat (n := n) (by simpa using h)
    exact ⟨h1, h2.trans (by simp)⟩
  | negSucc n =>
    obtain ⟨h1, h2⟩ := val_ofNat (n := n + 1) (by
      rw [Int.negSucc_eq, abs_neg] at h
      rw [abs_of_nonneg (by omega)] at h
      omega)
    have hn : Float.ofInt (.negSucc n) = -(ofNat (n + 1)) := rfl
    rw [hn, isFinite_neg_eq, val_neg, h2]
    refine ⟨h1, ?_⟩
    push_cast [Int.negSucc_eq]
    ring

end QueryForecast.Numeric
