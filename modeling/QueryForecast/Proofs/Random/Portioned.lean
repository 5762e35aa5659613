import QueryForecast.Proofs.Numeric.Ceiling
import QueryForecast.Proofs.Numeric.Unsigned
import QueryForecast.Proofs.Random.Distinct

/-!
# Drawing a portion

A portion of some numbers is a fraction of their count, rounded up, and at least one. As many different
numbers are drawn and put into ascending order, except that nothing is drawn when they are all needed:
then the generator stays as it is.

* `portion_one_eq` — the size of a portion, also where rounding up is past what 64 bits hold.
* `samplePortion_eq_range` — a sample of the full size is everything, and nothing was drawn.
* `samplePortion_is_proper` — a sample of a portion.
-/

namespace QueryForecast

namespace Numeric

variable {x fraction : Float} {n low high : ℕ}

/-- Rounding up is exact up to a bound of 64 bits: what is larger is cut off at the bound anyway. -/
theorem min_max_ceiling_eq (hf : x.isFinite) (h0 : 0 ≤ val x) (hh : high < 2 ^ 64) :
    min (max (ceiling x) low) high = min (max ⌈val x⌉₊ low) high := by
  by_cases hu : val x < 2 ^ (64 : ℤ)
  · rw [ceiling_eq_ceil hf h0 hu]
  · have hle : ((2 ^ 64 : ℕ) : ℚ) ≤ val x := by
      rw [Nat.cast_pow, Nat.cast_ofNat, ← zpow_natCast]
      exact not_lt.1 hu
    have hceil : high ≤ ⌈val x⌉₊ := by
      have : ((2 ^ 64 : ℕ) : ℚ) ≤ ⌈val x⌉₊ := hle.trans (Nat.le_ceil _)
      exact hh.le.trans (by exact_mod_cast this)
    have hceiling : high ≤ ceiling x := by
      have hwhole : 0xffffffffffffffff ≤ wholePart x := by
        rw [wholePart_eq hf h0]
        exact le_min ((by decide : 0xffffffffffffffff ≤ 2 ^ 64).trans (Nat.le_floor hle)) (le_refl _)
      unfold ceiling
      split <;> omega
    rw [min_eq_right (hceil.trans (le_max_left _ _)), min_eq_right (hceiling.trans (le_max_left _ _))]

/-- A fraction of a count that 64 bits hold, rounded up, at least one and at most all. -/
theorem portion_one_eq (hn : n < 2 ^ 64) (h0 : 0.0 < fraction) (h1 : fraction ≤ 1.0) :
    portion n fraction 1 n = min (max ⌈val (ofNat n * fraction)⌉₊ 1) n := by
  have hf := isFinite_of_lt_of_le near_one.finite h0 h1
  rw [lt_iff_val_lt val_zero.1 hf, val_zero.2] at h0
  rw [le_iff_val_le hf near_one.finite, near_one.val_eq] at h1
  obtain ⟨hfinite, hpos, -⟩ := mul_le_left (within_ofNat hn.le).finite hf (val_ofNat_bounds hn.le).1
    h0.le h1
  exact min_max_ceiling_eq hfinite hpos hn

end Numeric

namespace Random

open Numeric

variable {n : ℕ} {fraction : Float} {g : Generator}

theorem samplePortion_zero (fraction : Float) (g : Generator) : samplePortion 0 fraction g = ([], g) :=
  rfl

/-- **Nothing is drawn for a sample of everything.** -/
theorem samplePortion_eq_range (h : (samplePortion n fraction g).1.length = n) :
    samplePortion n fraction g = (List.range n, g) := by
  by_cases hn : n = 0
  · subst hn
    rfl
  · rw [length_samplePortion hn] at h
    unfold samplePortion
    rw [if_neg hn]
    exact if_pos h

/-- **A sample of a portion.** The sample holds numbers below `n` in strictly ascending order, so none of
them twice. Of no numbers it is empty, and of others it has the given fraction of them, rounded up, at
least one and not more than all. When it has all of them the generator is left as it was. -/
theorem samplePortion_is_proper (g : Generator) (hn : n < 2 ^ 64) (h0 : 0.0 < fraction)
    (h1 : fraction ≤ 1.0) :
    (samplePortion n fraction g).1.Pairwise (· < ·) ∧
    (∀ i ∈ (samplePortion n fraction g).1, i < n) ∧
    (n = 0 → (samplePortion n fraction g).1 = []) ∧
    (1 ≤ n → (samplePortion n fraction g).1.length = min (max ⌈val (ofNat n * fraction)⌉₊ 1) n) ∧
    ((samplePortion n fraction g).1.length = n → samplePortion n fraction g = (List.range n, g)) := by
  refine ⟨samplePortion_ascending n fraction g, fun i => lt_of_mem_samplePortion, ?_, fun hpos => ?_,
    samplePortion_eq_range⟩
  · rintro rfl
    rw [samplePortion_zero]
  · rw [length_samplePortion (Nat.pos_iff_ne_zero.1 hpos), portion_one_eq hn h0 h1]

/-- A quarter of ten numbers is three of them, and all of three numbers are these three. -/
theorem samplePortion_is_proper_of_quarter :
    let g := Generator.ofSeed 7
    (10 < 2 ^ 64 ∧ (0.0 : Float) < 0.25 ∧ (0.25 : Float) ≤ 1.0) ∧
    (samplePortion 10 0.25 g).1.Pairwise (· < ·) ∧
    (∀ i ∈ (samplePortion 10 0.25 g).1, i < 10) ∧
    (samplePortion 10 0.25 g).1.length = 3 ∧
    samplePortion 3 1.0 g = ([0, 1, 2], g) := by
  intro g
  have hten : 10 < 2 ^ 64 := by decide
  have hthree : 3 < 2 ^ 64 := by decide
  have h0 : (0.0 : Float) < 0.25 := by decide +kernel
  have h1 : (0.25 : Float) ≤ 1.0 := by decide +kernel
  have hwhole : (0.0 : Float) < 1.0 := by decide +kernel
  have hwhole' : (1.0 : Float) ≤ 1.0 := by decide +kernel
  have hproduct : Near (5 / 2) 0 (ofNat 10 * 0.25) :=
    near_of_fields (e := 1024) (f := 0x4000000000000) (s := false) (by decide +kernel)
      (by decide +kernel) (by decide +kernel) (by omega) (by omega) (by norm_num [signed, signOf])
  have hceil : ⌈(5 / 2 : ℚ)⌉₊ = 3 := by norm_num [Nat.ceil_eq_iff]
  obtain ⟨hascending, hbelow, -, hlength, -⟩ := samplePortion_is_proper g hten h0 h1
  obtain ⟨-, -, -, -, hall⟩ := samplePortion_is_proper g hthree hwhole hwhole'
  refine ⟨⟨hten, h0, h1⟩, hascending, hbelow, ?_, hall (by decide +kernel)⟩
  rw [hlength (by decide), hproduct.val_eq, hceil]
  rfl

end Random

end QueryForecast
