import QueryForecast.Feature.Heuristic
import QueryForecast.Proofs.Numeric.Exponential
import QueryForecast.Proofs.Numeric.Halfway
import QueryForecast.Proofs.Numeric.Nearest
import QueryForecast.Proofs.Numeric.Whole

/-!
# Halving a row count

Every filter halves the row count. Halving a double is exact until its last bit passes the least positive
double, and from there on not one row is left. So the estimate is that of whole numbers: only the row
count itself is rounded.

* `NearestEven.val_eq_zero` — what is rounded to zero.
* `Heuristic.val_halved` — the powers of one half as doubles.
* `Heuristic.floor_val_mul_halved` — a whole number halved some times, rounded down.
* `Heuristic.cardinality_in_whole_numbers` — the estimated row count, and what it follows.
-/

namespace QueryForecast

namespace Numeric

open Float.Model Float.Model.UnpackedFloat

/-- Half of the least positive double is as near to zero, which is the even one. -/
theorem RoundsEven.eq_zero {v : ℚ} {f : UnpackedFloat} (h : RoundsEven v f)
    (hv : |v| ≤ 2 ^ (-1075 : ℤ)) : ∃ s, f = .zero s := by
  obtain ⟨s, r, t, rfl, -, ht, hnear, -, heven⟩ := h
  have hq : |v / 2 ^ t| ≤ 1 / 2 := by
    have h2 : (0 : ℚ) < 2 ^ t := by positivity
    rw [abs_div, abs_of_pos h2, div_le_iff₀ h2]
    calc |v| ≤ 2 ^ (-1075 : ℤ) := hv
      _ ≤ 2 ^ (t - 1) := zpow_le_zpow_right₀ (by norm_num) (by omega)
      _ = 1 / 2 * 2 ^ t := by rw [zpow_sub_one₀ two_ne_zero]; ring
  have hr : (r : ℚ) ≤ |signed s r - v / 2 ^ t| + |v / 2 ^ t| := by
    have htri := abs_sub_le (signed s r) (v / 2 ^ t) 0
    rwa [sub_zero, sub_zero, abs_signed, Nat.abs_cast] at htri
  have hr0 : r = 0 := by
    by_contra hne
    have h1 : ((1 : ℕ) : ℚ) ≤ r := by exact_mod_cast Nat.one_le_iff_ne_zero.2 hne
    have hr1 : (r : ℚ) ≤ ((1 : ℕ) : ℚ) := by
      push_cast
      linarith
    have he : r = 1 := le_antisymm (by exact_mod_cast hr1) (by exact_mod_cast h1)
    have htie := heven (le_antisymm hnear (by push_cast at h1; linarith))
    omega
  exact ⟨s, by rw [hr0, ofUnits, dif_pos rfl]⟩

theorem NearestEven.val_eq_zero {v : ℚ} {z : Float} (h : NearestEven v z)
    (hv : |v| ≤ 2 ^ (-1075 : ℤ)) : z.isFinite = true ∧ val z = 0 := by
  obtain ⟨f, hf, hz⟩ := h
  obtain ⟨s, rfl⟩ := hf.eq_zero hv
  rw [isFinite_eq, val, hz]
  exact ⟨rfl, rfl⟩

/-- A result that is a double is exact. -/
theorem NearestEven.val_eq {v : ℚ} {z : Float} (h : NearestEven v z) (hv : IsDouble v)
    (hlt : |v| < 2 ^ (1024 : ℤ)) : z.isFinite = true ∧ val z = v := by
  obtain ⟨hf, hr⟩ := h.nearest.finite_of_le hv.abs (le_refl _) hlt
  exact ⟨hf, hr.value_eq hv⟩

end Numeric

namespace Heuristic

open Numeric

/-- **The powers of one half** are exact down to the least positive double, and zero from there on. -/
theorem val_halved (k : ℕ) :
    (halved k).isFinite = true ∧ val (halved k) = if k ≤ 1074 then 2 ^ (-k : ℤ) else 0 := by
  induction k with
  | zero =>
    refine ⟨near_one.finite, ?_⟩
    rw [if_pos (by omega)]
    exact near_one.val_eq
  | succ k ih =>
    obtain ⟨hf, hv⟩ := ih
    have hmul : NearestEven (val (halved k) * (1 / 2)) (halved (k + 1)) := by
      rw [← near_half.val_eq]
      exact nearestEven_mul hf near_half.finite
    rw [hv] at hmul
    by_cases hk : k + 1 ≤ 1074
    · rw [if_pos (by omega)] at hmul
      rw [if_pos hk]
      have hpow : (2 : ℚ) ^ (-k : ℤ) * (1 / 2) = 2 ^ (-(k + 1 : ℕ) : ℤ) := by
        rw [show (-(k + 1 : ℕ) : ℤ) = -k - 1 by push_cast; ring, zpow_sub_one₀ two_ne_zero, one_div]
      rw [hpow] at hmul
      refine hmul.val_eq (isDouble_two_zpow (by push_cast; omega)) ?_
      rw [abs_of_pos (by positivity)]
      exact zpow_lt_zpow_right₀ (by norm_num) (by omega)
    · rw [if_neg hk]
      refine hmul.val_eq_zero ?_
      split
      · rw [show k = 1074 by omega, abs_of_pos (by positivity)]
        exact le_of_eq (by rw [one_div, ← zpow_sub_one₀ two_ne_zero]; norm_num)
      · rw [zero_mul, abs_zero]
        positivity

/-- **A whole number halved some times and rounded down** is the quotient of whole numbers. -/
theorem floor_val_mul_halved (n : UInt64) (k : ℕ) :
    (n.toFloat * halved k).isFinite = true ∧ 0 ≤ val (n.toFloat * halved k) ∧
      ⌊val (n.toFloat * halved k)⌋₊ = nearestDouble n.toNat / 2 ^ k := by
  have hmul := nearestEven_mul (toFloat_bounds n).1 (val_halved k).1
  rw [val_toFloat_eq, (val_halved k).2] at hmul
  by_cases hk : k ≤ 1074
  · rw [if_pos hk] at hmul
    have hlt : |(nearestDouble n.toNat : ℚ) * 2 ^ (-k : ℤ)| < 2 ^ (1024 : ℤ) := by
      rw [abs_of_nonneg (by positivity)]
      calc (nearestDouble n.toNat : ℚ) * 2 ^ (-k : ℤ) ≤ 2 ^ 64 * 2 ^ (0 : ℤ) :=
            mul_le_mul (by exact_mod_cast nearestDouble_toNat_le n)
              (zpow_le_zpow_right₀ (by norm_num) (by omega)) (by positivity) (by positivity)
        _ = 2 ^ (64 : ℤ) := by rw [zpow_zero, mul_one]; exact (zpow_natCast 2 64).symm
        _ < 2 ^ (1024 : ℤ) := zpow_lt_zpow_right₀ (by norm_num) (by norm_num)
    obtain ⟨hf, hv⟩ := hmul.val_eq (isDouble_nearestDouble_mul _ (by omega)) hlt
    have hquotient : (nearestDouble n.toNat : ℚ) * 2 ^ (-k : ℤ) =
        (nearestDouble n.toNat : ℚ) / ((2 ^ k : ℕ) : ℚ) := by
      rw [zpow_neg, zpow_natCast, ← div_eq_mul_inv, Nat.cast_pow, Nat.cast_ofNat]
    rw [hv, hquotient]
    exact ⟨hf, div_nonneg (Nat.cast_nonneg _) (Nat.cast_nonneg _), Nat.floor_div_eq_div _ _⟩
  · rw [if_neg hk, mul_zero] at hmul
    obtain ⟨hf, hv⟩ := hmul.val_eq_zero (by rw [abs_zero]; positivity)
    have hlt : nearestDouble n.toNat < 2 ^ k :=
      (nearestDouble_toNat_le n).trans_lt (Nat.pow_lt_pow_right (by decide) (by omega))
    rw [hv, Nat.floor_zero, Nat.div_eq_of_lt hlt]
    exact ⟨hf, le_refl _, rfl⟩

/-- An exponent that is cut halves a small number to nothing all the same. -/
theorem div_two_pow_min {d m : ℕ} (h : d < 2 ^ m) (k : ℕ) : d / 2 ^ min k m = d / 2 ^ k := by
  rcases Nat.le_total k m with hk | hk
  · rw [min_eq_left hk]
  · rw [min_eq_right hk, Nat.div_eq_of_lt h,
      Nat.div_eq_of_lt (h.trans_le (Nat.pow_le_pow_right (by decide) hk))]

/-- The row count that an estimate starts from: 1000 for a table without statistics. -/
def startRows (q : Query) : ℕ :=
  (q.rowCount?.getD 1000).toNat

theorem toNat_cardinality (q : Query) : (cardinality q).toNat =
    max 1 (min (2 ^ 64 - 1) (nearestDouble (startRows q) / 2 ^ q.filters.length)) := by
  obtain ⟨hf, h0, hfloor⟩ := floor_val_mul_halved (q.rowCount?.getD 1000)
    (min q.filters.length maxExponent)
  have hsmall : nearestDouble (startRows q) < 2 ^ maxExponent :=
    (nearestDouble_toNat_le _).trans_lt (Nat.pow_lt_pow_right (by decide) (by decide))
  have hwhole := wholePart_eq hf h0
  rw [hfloor, ← startRows, div_two_pow_min hsmall] at hwhole
  rw [cardinality, UInt64.toNat_max, max_comm]
  exact congrArg (max 1) (hwhole.trans (min_comm _ _))

/-- **The estimated row count is that of whole numbers**: the row count of the table, as the double
nearest to it, is divided by two for every filter. So it is exact for tables of up to `2^53` rows, one
filter more does not raise it, and more rows do not lower it. -/
theorem cardinality_in_whole_numbers (q : Query) :
    (cardinality q).toNat =
      max 1 (min (2 ^ 64 - 1) (nearestDouble (startRows q) / 2 ^ q.filters.length)) ∧
    (startRows q ≤ 2 ^ 53 →
      (cardinality q).toNat = max 1 (startRows q / 2 ^ q.filters.length)) ∧
    (∀ f, cardinality (q.addFilter f) ≤ cardinality q) ∧
    ∀ other : Query, q.filters.length ≤ other.filters.length → startRows other ≤ startRows q →
      cardinality other ≤ cardinality q := by
  have hmono : ∀ other : Query, q.filters.length ≤ other.filters.length →
      startRows other ≤ startRows q → cardinality other ≤ cardinality q := by
    intro other hlength hrows
    rw [UInt64.le_iff_toNat_le, toNat_cardinality, toNat_cardinality]
    have hdiv : nearestDouble (startRows other) / 2 ^ other.filters.length ≤
        nearestDouble (startRows q) / 2 ^ q.filters.length :=
      Nat.div_le_div (nearestDouble_mono hrows) (Nat.pow_le_pow_right (by decide) hlength)
        (by positivity)
    exact max_le_max (le_refl _) (min_le_min (le_refl _) hdiv)
  refine ⟨toNat_cardinality q, fun h => ?_, fun f => ?_, hmono⟩
  · have hle : startRows q / 2 ^ q.filters.length ≤ 2 ^ 64 - 1 :=
      (Nat.div_le_self _ _).trans (h.trans (by decide))
    rw [toNat_cardinality, nearestDouble_of_le h, min_eq_right hle]
  · exact hmono (q.addFilter f) (by simp [Query.addFilter]) (le_refl _)

/-- A scan of a table with a number of rows, with a number of filters. -/
def scan (rows : UInt64) (filters : ℕ) : Query where
  filters := List.replicate filters ⟨"price", "<", .null⟩
  tableStats := some { rowCount := rows }

/-- Three filters on a table without statistics, and on one with fewer rows; and a row count that is no
double. -/
theorem cardinality_in_whole_numbers_of_scans :
    let q : Query := { scan 0 3 with tableStats := none }
    (cardinality q).toNat = 125 ∧ cardinality (scan 999 3) ≤ cardinality q ∧
      (cardinality (scan 9007199254740993 0)).toNat = 9007199254740992 := by
  intro q
  obtain ⟨-, hexact, -, hmono⟩ := cardinality_in_whole_numbers q
  obtain ⟨hrounded, -⟩ := cardinality_in_whole_numbers (scan 9007199254740993 0)
  exact ⟨(hexact (by decide)).trans (by decide), hmono (scan 999 3) (by decide) (by decide),
    hrounded.trans (by decide)⟩

end Heuristic

end QueryForecast
