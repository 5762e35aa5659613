import QueryForecast.Feature.History
import QueryForecast.Proofs.Numeric.Multiplying
import QueryForecast.Proofs.Numeric.Percentile

/-!
# Percentiles are order statistics

A percentile is found at a position among the ascending samples. The position is a product of doubles that
is cut to a whole number, but it never comes out past the last sample, and it does not go back when the
fraction grows. In the total order of doubles only equal ones share a place, so what is found at a
position does not depend on the order in which the samples came.

* `eq_of_precedes`, `ascending_eq_of_perm` — equal places, and samples in another order.
* `percentileIndex_eq`, `percentileIndex_lt`, `percentileIndex_mono` — the position of a percentile.
* `lt_countP_iff_percentile`, `countP_percentile` — how many samples are below a percentile, and how many
  up to it.
* `PropertyHistory.median_precedes_high` — the two percentiles of a history.
* `percentile_is_order_statistic` — all of it together.
-/

namespace QueryForecast

open Numeric

namespace Numeric

variable {x y fraction : Float} {xs ys : List Float} {n : ℕ}

/-! ## The total order -/

/-- **Only equal doubles share a place.** -/
theorem eq_of_precedes (hxy : precedes x y = true) (hyx : precedes y x = true) : x = y := by
  rw [precedes, decide_eq_true_eq] at hxy hyx
  have hrank := congrArg UInt64.toNat (UInt64.le_antisymm hxy hyx)
  have hx := x.toBits.toNat_lt
  have hy := y.toBits.toNat_lt
  have hbits : x.toBits.toNat = y.toBits.toNat := by
    -- The sign decides on which side of the middle a place lies, and how the pattern is read.
    rw [toNat_rank, toNat_rank] at hrank
    unfold signBit at hrank
    split at hrank <;> split at hrank <;> simp only [decide_eq_true_eq] at * <;> omega
  rw [← Float.ofBits_toBits x, ← Float.ofBits_toBits y, UInt64.toNat_inj.1 hbits]

/-- **Samples in another order are the same when they ascend.** -/
theorem ascending_eq_of_perm (h : ys.Perm xs) : ascending ys = ascending xs :=
  List.Perm.eq_of_pairwise (fun _ _ _ _ => eq_of_precedes) (ascending_sorted ys) (ascending_sorted xs)
    ((ascending_perm ys).trans (h.trans (ascending_perm xs).symm))

theorem percentile_eq_of_perm (h : ys.Perm xs) (fraction : Float) :
    percentile ys fraction = percentile xs fraction := by
  unfold percentile
  rw [ascending_eq_of_perm h, h.length_eq]

/-! ## The position -/

/-- A defined fraction that is moved between zero and one. -/
theorem clamp_unit_bounds (h : fraction.isNaN = false) :
    (clamp 0.0 1.0 fraction).isFinite = true ∧ 0 ≤ val (clamp 0.0 1.0 fraction) ∧
      val (clamp 0.0 1.0 fraction) ≤ 1 := by
  obtain ⟨h0, h1⟩ : 0.0 ≤ clamp 0.0 1.0 fraction ∧ clamp 0.0 1.0 fraction ≤ 1.0 :=
    clamp_mem (by decide) (by decide) h (by decide) (by decide) (by decide)
  have hf : (clamp 0.0 1.0 fraction).isFinite = true := by
    rcases finite_or_infinite_of_zero_le h0 with ⟨hf, -⟩ | hi
    · exact hf
    · exact absurd h1 (not_le_of_float_lt (isNaN_of_isFinite near_one.finite) (isNaN_of_le h0).2
        (lt_of_infinite near_one.finite hi))
  rw [le_iff_val_le val_zero.1 hf, val_zero.2] at h0
  rw [le_iff_val_le hf near_one.finite, near_one.val_eq] at h1
  exact ⟨hf, h0, h1⟩

/-- The position before it is cut to a whole number. -/
theorem position_bounds (hn : n ≤ 2 ^ 64) (h : fraction.isNaN = false) :
    (ofNat (n - 1) * clamp 0.0 1.0 fraction).isFinite = true ∧
      0 ≤ val (ofNat (n - 1) * clamp 0.0 1.0 fraction) ∧
      val (ofNat (n - 1) * clamp 0.0 1.0 fraction) ≤ val (ofNat (n - 1)) := by
  have hle : n - 1 ≤ 2 ^ 64 := (Nat.sub_le n 1).trans hn
  obtain ⟨hf, h0, h1⟩ := clamp_unit_bounds h
  exact mul_le_left (within_ofNat hle).finite hf (val_ofNat_bounds hle).1 h0 h1

/-- **A defined position is the product rounded down**, and no more than the last one. -/
theorem percentileIndex_eq (hn : n ≤ 2 ^ 53) (h : fraction.isNaN = false) :
    percentileIndex n fraction = ⌊val (ofNat (n - 1) * clamp 0.0 1.0 fraction)⌋₊ ∧
      ⌊val (ofNat (n - 1) * clamp 0.0 1.0 fraction)⌋₊ ≤ n - 1 := by
  obtain ⟨hf, h0, hle⟩ := position_bounds (hn.trans (by decide)) h
  rw [(val_ofNat (by omega)).2] at hle
  have hlast : ⌊val (ofNat (n - 1) * clamp 0.0 1.0 fraction)⌋₊ ≤ n - 1 := Nat.floor_le_of_le hle
  refine ⟨?_, hlast⟩
  unfold percentileIndex
  rw [wholePart_eq hf h0, min_eq_left (by omega)]

theorem wholePart_of_isNaN (h : x.isNaN = true) : wholePart x = 0 := by
  show (UInt64.ofNatClamp ((unpacked x).toInt 0 (UInt64.size - 1)).toNat).toNat = 0
  rw [unpacked_of_isNaN h]
  rfl

/-- An undefined fraction stands for the first position. -/
theorem percentileIndex_of_isNaN (n : ℕ) (h : fraction.isNaN = true) :
    percentileIndex n fraction = 0 := by
  unfold percentileIndex
  rw [clamp_of_isNaN h]
  apply wholePart_of_isNaN
  by_contra hn
  rw [(isNaN_mul_eq_false (by simpa using hn)).2] at h
  cases h

/-- **The position does not go back when the fraction grows.** -/
theorem percentileIndex_mono (hn : n ≤ 2 ^ 64) (h : x ≤ y) :
    percentileIndex n x ≤ percentileIndex n y := by
  obtain ⟨hx, hy⟩ := isNaN_of_le h
  obtain ⟨hcx, hcx0, -⟩ := clamp_unit_bounds hx
  obtain ⟨hcy, -, hcy1⟩ := clamp_unit_bounds hy
  obtain ⟨hpx, hpx0, -⟩ := position_bounds hn hx
  obtain ⟨hpy, hpy0, -⟩ := position_bounds hn hy
  have hclamp := (le_iff_val_le hcx hcy).1 (clamp_mono (by decide) h)
  have hle : n - 1 ≤ 2 ^ 64 := (Nat.sub_le n 1).trans hn
  unfold percentileIndex
  rw [wholePart_eq hpx hpx0, wholePart_eq hpy hpy0]
  exact min_le_min (Nat.floor_mono (val_mul_le_val_mul (within_ofNat hle).finite
    (val_ofNat_bounds hle).1 hcx hcx0 hcy hcy1 hclamp)) (le_refl _)

/-- **The position is that of a sample.** -/
theorem percentileIndex_lt (h0 : 0 < n) (hn : n ≤ 2 ^ 53) (fraction : Float) :
    percentileIndex n fraction < n := by
  cases h : fraction.isNaN with
  | true => rwa [percentileIndex_of_isNaN n h]
  | false =>
    obtain ⟨heq, hlast⟩ := percentileIndex_eq hn h
    omega

/-- **Two roundings do not make up for a fraction that is not too near to one**: where the number of
samples is rounded up, the position is still before the last one. -/
theorem position_lt (hlarge : 0x20000000000000 ≤ n - 1) (hn : n ≤ 2 ^ 64) (h : fraction.isNaN = false)
    (hle : val (clamp 0.0 1.0 fraction) ≤ 31 / 32) :
    val (ofNat (n - 1) * clamp 0.0 1.0 fraction) < (n - 1 : ℕ) := by
  obtain ⟨hc, hc0, -⟩ := clamp_unit_bounds h
  obtain ⟨hz, -, -⟩ := position_bounds hn h
  have hcount : n - 1 ≤ 2 ^ 64 := (Nat.sub_le n 1).trans hn
  have hx := (within_ofNat hcount).finite
  have hx0 := (val_ofNat_bounds hcount).1
  have hnear : |val (ofNat (n - 1)) - (n - 1 : ℕ)| ≤ _ :=
    ((nearest_ofNat hlarge).rounds_of_isFinite hx).abs_value_sub_le
  have hnear' : |val (ofNat (n - 1) * clamp 0.0 1.0 fraction) - _| ≤ _ :=
    ((nearest_mul hx hc).rounds_of_isFinite hz).abs_value_sub_le
  rw [Nat.abs_cast] at hnear
  rw [abs_of_nonneg (mul_nonneg hx0 hc0)] at hnear'
  have hcut := mul_le_mul_of_nonneg_left hle hx0
  have htiny : (2 : ℚ) ^ (-1075 : ℤ) ≤ 1 := zpow_le_one_of_nonpos₀ one_le_two (by decide)
  have hmany : (0x20000000000000 : ℚ) ≤ (n - 1 : ℕ) := by exact_mod_cast hlarge
  linarith [(abs_le.1 hnear).2, (abs_le.1 hnear').2]

theorem percentileIndex_lt_of_le (h0 : 0 < n) (hn : n ≤ 2 ^ 64) (h : fraction.isNaN = false)
    (hle : val (clamp 0.0 1.0 fraction) ≤ 31 / 32) : percentileIndex n fraction < n := by
  by_cases hsmall : n ≤ 2 ^ 53
  · exact percentileIndex_lt h0 hsmall fraction
  · obtain ⟨hf, hpos, -⟩ := position_bounds hn h
    have hlt := position_lt (by omega) hn h hle
    unfold percentileIndex
    rw [wholePart_eq hf hpos]
    refine (min_le_left _ _).trans_lt ((Nat.floor_lt hpos).2 (hlt.trans ?_))
    exact_mod_cast Nat.sub_lt h0 one_pos

/-! ## Counting -/

theorem percentile_eq_getElem (hk : percentileIndex xs.length fraction < (ascending xs).length) :
    percentile xs fraction = (ascending xs)[percentileIndex xs.length fraction] :=
  List.getD_eq_getElem _ _ hk

/-- **A percentile has a property exactly when more samples than its position have it**, if whatever
precedes a sample that has it has it as well. -/
theorem lt_countP_iff_percentile {p : Float → Bool}
    (hclosed : ∀ x y, precedes x y = true → p y = true → p x = true)
    (hk : percentileIndex xs.length fraction < xs.length) :
    percentileIndex xs.length fraction < xs.countP p ↔ p (percentile xs fraction) = true := by
  have hk' : percentileIndex xs.length fraction < (ascending xs).length := by rwa [length_ascending]
  rw [percentile_eq_getElem hk', ← (ascending_perm xs).countP_eq]
  exact lt_countP_iff_of_pairwise ((ascending_sorted xs).imp fun {x y} => hclosed x y) hk'

/-- **How many samples are below a percentile, and how many up to it.** -/
theorem countP_percentile (hk : percentileIndex xs.length fraction < xs.length) :
    xs.countP (fun x => rank x < rank (percentile xs fraction)) ≤ percentileIndex xs.length fraction ∧
    percentileIndex xs.length fraction + 1 ≤
      xs.countP (fun x => rank x ≤ rank (percentile xs fraction)) := by
  constructor
  · rw [← not_lt, lt_countP_iff_percentile ?_ hk]
    · simp
    · intro x y hxy hy
      rw [precedes, decide_eq_true_eq] at hxy
      rw [decide_eq_true_eq] at hy ⊢
      exact UInt64.lt_of_le_of_lt hxy hy
  · rw [Nat.succ_le_iff, lt_countP_iff_percentile ?_ hk]
    · simp
    · intro x y hxy hy
      rw [precedes, decide_eq_true_eq] at hxy
      rw [decide_eq_true_eq] at hy ⊢
      exact UInt64.le_trans hxy hy

/-- What is found at the position of a sample is a sample. -/
theorem percentile_mem (hk : percentileIndex xs.length fraction < xs.length) :
    percentile xs fraction ∈ xs := by
  rw [percentile_eq_getElem (by rwa [length_ascending])]
  exact (ascending_perm xs).mem_iff.1 (List.getElem_mem _)

/-- A sample at a later position does not precede one at an earlier position. -/
theorem percentile_precedes {x y : Float}
    (h : percentileIndex xs.length x ≤ percentileIndex xs.length y)
    (hy : percentileIndex xs.length y < xs.length) :
    precedes (percentile xs x) (percentile xs y) = true := by
  have hy' : percentileIndex xs.length y < (ascending xs).length := by rwa [length_ascending]
  rw [percentile_eq_getElem (h.trans_lt hy'), percentile_eq_getElem hy']
  rcases h.lt_or_eq with hlt | heq
  · exact List.pairwise_iff_getElem.1 (ascending_sorted xs) _ _ _ _ hlt
  · simp only [heq, precedes, decide_eq_true_eq]
    exact UInt64.le_refl _

end Numeric

/-- **The median precedes the 95th percentile** in every history that memory can hold. -/
theorem PropertyHistory.median_precedes_high (h : PropertyHistory) (hn : h.samples.length < 2 ^ 64) :
    precedes h.median h.high = true := by
  unfold PropertyHistory.median PropertyHistory.high
  by_cases hs : h.samples = []
  · rw [hs, percentile_nil, percentile_nil]
    decide
  · have hclamp : clamp 0.0 1.0 0.95 = 0.95 := by decide +kernel
    have hbound : Near (31 / 32) 0 0.96875 :=
      near_of_fields (e := 1022) (f := 0xf000000000000) (s := false) (by decide +kernel)
        (by decide +kernel) (by decide +kernel) (by omega) (by omega) (by norm_num [signed, signOf])
    have hval : val (clamp 0.0 1.0 0.95) ≤ 31 / 32 := by
      rw [hclamp, ← hbound.val_eq, ← le_iff_val_le (by decide +kernel) hbound.finite]
      decide +kernel
    have horder : (0.5 : Float) ≤ 0.95 := by decide +kernel
    have hdefined : (0.95 : Float).isNaN = false := by decide +kernel
    exact percentile_precedes (percentileIndex_mono hn.le horder)
      (percentileIndex_lt_of_le (List.length_pos_iff.2 hs) hn.le hdefined hval)

/-- **A percentile is an order statistic.** Of some samples, not more than a double counts exactly, the
position of a fraction is the last position times the fraction, rounded down, where the fraction is moved
between zero and one first; an undefined fraction has the first position. So many samples at most come
before the percentile in the total order, which is a sample itself, and more than so many do not come
after it. Hence it does not depend on the order of the samples, and a greater fraction has no earlier
percentile. The median of a history does not come after its 95th percentile. -/
theorem percentile_is_order_statistic :
    (∀ xs : List Float, xs ≠ [] → xs.length ≤ 2 ^ 53 →
      (∀ fraction : Float, ∃ k < xs.length,
        k = (if fraction.isNaN then 0
          else ⌊val (ofNat (xs.length - 1) * clamp 0.0 1.0 fraction)⌋₊) ∧
        percentile xs fraction ∈ xs ∧
        xs.countP (fun x => rank x < rank (percentile xs fraction)) ≤ k ∧
        k + 1 ≤ xs.countP (fun x => rank x ≤ rank (percentile xs fraction))) ∧
      (∀ ys fraction, ys.Perm xs → percentile ys fraction = percentile xs fraction) ∧
      (∀ x y : Float, x ≤ y → precedes (percentile xs x) (percentile xs y) = true)) ∧
    (∀ h : PropertyHistory, h.samples.length < 2 ^ 64 → precedes h.median h.high = true) := by
  refine ⟨fun xs hne hn => ?_, fun h => h.median_precedes_high⟩
  have hpos : 0 < xs.length := List.length_pos_iff.2 hne
  refine ⟨fun fraction => ?_, fun ys fraction hp => percentile_eq_of_perm hp fraction,
    fun x y hxy => ?_⟩
  · have hk := percentileIndex_lt hpos hn fraction
    refine ⟨percentileIndex xs.length fraction, hk, ?_, percentile_mem hk, countP_percentile hk⟩
    split
    · rename_i hf
      exact percentileIndex_of_isNaN _ hf
    · rename_i hf
      exact (percentileIndex_eq hn (by simpa using hf)).1
  · exact percentile_precedes (percentileIndex_mono (hn.trans (by decide)) hxy)
      (percentileIndex_lt hpos hn y)

/-- Samples with both zeros and one that is undefined: no sample precedes the one that an undefined
fraction stands for, and a fraction above one does not come before the middle of them, in either order. -/
theorem percentile_is_order_statistic_of_zeros :
    let xs : List Float := [0.5, 0.0 / 0.0, 0.0, -0.0, 0.25]
    let past : PropertyHistory := { samples := xs }
    (xs ≠ [] ∧ xs.length ≤ 2 ^ 53 ∧ (0.0 / 0.0 : Float).isNaN = true ∧ xs.reverse.Perm xs ∧
      (0.5 : Float) ≤ 2.0) ∧
    xs.countP (fun x => rank x < rank (percentile xs (0.0 / 0.0))) = 0 ∧
    1 ≤ xs.countP (fun x => rank x ≤ rank (percentile xs (0.0 / 0.0))) ∧
    precedes (percentile xs.reverse 0.5) (percentile xs 2.0) = true ∧
    precedes past.median past.high = true := by
  intro xs past
  have hne : xs ≠ [] := by simp [xs]
  have hn : xs.length ≤ 2 ^ 53 := by decide
  have hundefined : (0.0 / 0.0 : Float).isNaN = true := by decide +kernel
  have horder : (0.5 : Float) ≤ 2.0 := by decide +kernel
  obtain ⟨hall, hhistory⟩ := percentile_is_order_statistic
  obtain ⟨hposition, hperm, hmono⟩ := hall xs hne hn
  obtain ⟨k, -, hk, -, hbelow, hupto⟩ := hposition (0.0 / 0.0)
  rw [if_pos hundefined] at hk
  subst hk
  refine ⟨⟨hne, hn, hundefined, List.reverse_perm xs, horder⟩, Nat.le_zero.1 hbelow, hupto, ?_,
    hhistory past (by decide)⟩
  rw [hperm xs.reverse 0.5 (List.reverse_perm xs)]
  exact hmono 0.5 2.0 horder

end QueryForecast
