import QueryForecast.Proofs.Numeric.Exponential
import QueryForecast.Proofs.Numeric.Halfway

/-!
# Magnitudes

Counts and the formulas over them stay far below the end of the range of doubles. What keeps them
there is their magnitude in powers of two: rounding does not pass over a power of two, a sum is at
most one power above its terms, and the powers of a product add up.

* `Within k x` — the double `x` is finite and at most `2^k` in magnitude.
* `Within.add`, `Within.mul`, `within_product` — what is known of a result.
* `within_ofNat` — addressable counts as doubles.
* `isFinite_ofInt` — whole numbers of 64 bits as doubles.
-/

namespace QueryForecast.Numeric

open Float.Model Float.Model.UnpackedFloat

/-- A finite double of magnitude at most `2^k`. -/
structure Within (k : ℕ) (x : Float) : Prop where
  finite : x.isFinite = true
  abs_val_le : |val x| ≤ 2 ^ k

namespace Within

variable {j k n : ℕ} {x y z : Float}

/-- Rounding does not pass over a power of two. -/
theorem of_nearest {v : ℚ} (h : Nearest v z) (hv : |v| ≤ 2 ^ k) (hk : k ≤ 1023) : Within k z := by
  have hd : IsDouble ((2 : ℚ) ^ k) := by
    rw [← zpow_natCast]
    exact isDouble_two_zpow (by omega)
  have hlt : (2 : ℚ) ^ k < 2 ^ (1024 : ℤ) := by
    rw [← zpow_natCast]
    exact zpow_lt_zpow_right₀ (by norm_num) (by omega)
  obtain ⟨hf, hr⟩ := h.finite_of_le hd hv hlt
  exact ⟨hf, hr.abs_value_le hd hv⟩

theorem mono (h : Within j x) (hjk : j ≤ k) : Within k x :=
  ⟨h.finite, h.abs_val_le.trans (pow_le_pow_right₀ (by norm_num) hjk)⟩

theorem add (hx : Within n x) (hy : Within n y) (hn : n ≤ 1022) : Within (n + 1) (x + y) := by
  apply of_nearest (nearest_add hx.finite hy.finite) _ (by omega)
  calc |val x + val y| ≤ |val x| + |val y| := abs_add_le _ _
    _ ≤ 2 ^ n + 2 ^ n := add_le_add hx.abs_val_le hy.abs_val_le
    _ = 2 ^ (n + 1) := by ring

theorem mul (hx : Within j x) (hy : Within k y) (h : j + k ≤ 1023) : Within (j + k) (x * y) := by
  apply of_nearest (nearest_mul hx.finite hy.finite) _ h
  calc |val x * val y| = |val x| * |val y| := abs_mul _ _
    _ ≤ 2 ^ j * 2 ^ k :=
      mul_le_mul hx.abs_val_le hy.abs_val_le (abs_nonneg _) (by positivity)
    _ = 2 ^ (j + k) := (pow_add 2 j k).symm

/-- A number between two others is of no greater magnitude. -/
theorem of_abs_le (hx : x.isFinite) (hy : Within k y) (h : x.abs ≤ y) : Within k x := by
  rw [le_iff_val_le (by rwa [isFinite_abs]) hy.finite, val_abs] at h
  exact ⟨hx, h.trans ((le_abs_self _).trans hy.abs_val_le)⟩

end Within

theorem within_one : Within 0 1.0 :=
  ⟨near_one.finite, by rw [near_one.val_eq]; norm_num⟩

theorem within_two : Within 1 2.0 :=
  ⟨near_two.finite, by rw [near_two.val_eq]; norm_num⟩

/-- Fractions are closed under multiplication. -/
theorem within_product {xs : List Float} (h : ∀ x ∈ xs, Within 0 x) : Within 0 (product xs) := by
  suffices hs : ∀ start, Within 0 start → Within 0 (xs.foldl (· * ·) start) from hs _ within_one
  induction xs with
  | nil =>
    intro start hs
    exact hs
  | cons x rest ih =>
    intro start hs
    rw [List.forall_mem_cons] at h
    exact ih h.2 _ (hs.mul h.1 (by omega))

/-! ## Counts -/

/-- A natural number of more than 53 bits is rounded. Its digits are shifted far to the left first, so
that there are enough of them to be cut. -/
theorem nearest_ofNat {n : ℕ} (hn : 0x20000000000000 ≤ n) : Nearest n (ofNat n) := by
  have hlog : 52 ≤ ((n <<< 53) * 10 ^ 0).log2 := by
    rw [Nat.le_log2 (by rw [Nat.shiftLeft_eq]; omega), Nat.shiftLeft_eq]
    omega
  have h := rounds_roundWithAccuracy .positive (e := -53)
    (show Holds (.ofMantissaAndAccuracy ((n <<< 53) * 10 ^ 0) .exact)
      (((n <<< 53) * 10 ^ 0 : ℕ) : ℚ) from rfl) (.inl hlog)
  have hv : signed .positive ((((n <<< 53) * 10 ^ 0 : ℕ) : ℚ) * 2 ^ (-53 : ℤ)) = n := by
    rw [Nat.shiftLeft_eq, signed, zpow_neg, ← div_eq_mul_inv]
    push_cast
    exact (div_eq_iff (by positivity)).2 (by norm_num)
  have he : ofNat n = packed (roundWithAccuracy double .positive ((n <<< 53) * 10 ^ 0) (-53)
      .exact) := by
    show Float.ofScientific n false 0 = _
    unfold Float.ofScientific
    rw [dif_neg (by omega)]
    show packed (UnpackedFloat.ofScientific double n 0) = _
    unfold UnpackedFloat.ofScientific
    have hb : double.exponentBits = 11 := rfl
    rw [dif_neg (by omega), if_neg (by decide), if_neg (by rw [hb]; omega), if_pos (by omega)]
    rfl
  rw [he, ← hv]
  exact nearest_packed h

/-- Counts of things in memory, as doubles. -/
theorem within_ofNat {n : ℕ} (h : n ≤ 2 ^ 64) : Within 64 (ofNat n) := by
  have habs : |(n : ℚ)| ≤ 2 ^ 64 := by
    rw [Nat.abs_cast]
    exact_mod_cast h
  by_cases hn : n < 0x20000000000000
  · obtain ⟨hf, hv⟩ := val_ofNat hn
    exact ⟨hf, by rwa [hv]⟩
  · exact Within.of_nearest (nearest_ofNat (by omega)) habs (by omega)

theorem within_toFloat (n : UInt64) : Within 64 n.toFloat := by
  have hr := rounds_normalize (n.toNat : ℤ) 0 .positive
  rw [zpow_zero, mul_one, Int.cast_natCast] at hr
  apply Within.of_nearest (nearest_packed hr) _ (by omega)
  rw [Nat.abs_cast]
  exact_mod_cast n.toNat_lt.le

theorem within_toFloat32 (n : UInt32) : Within 32 n.toFloat := by
  have hr := rounds_normalize (n.toNat : ℤ) 0 .positive
  rw [zpow_zero, mul_one, Int.cast_natCast] at hr
  apply Within.of_nearest (z := n.toFloat) (nearest_packed hr) _ (by omega)
  rw [Nat.abs_cast]
  exact_mod_cast n.toNat_lt.le

/-- Whole numbers of 64 bits are finite as doubles, also negative ones. -/
theorem isFinite_ofInt {k : ℤ} (h : |k| ≤ 2 ^ 64) : (Float.ofInt k).isFinite = true := by
  cases k with
  | ofNat n => exact (within_ofNat (by simpa using h)).finite
  | negSucc n =>
    have hn : Float.ofInt (.negSucc n) = -(ofNat (n + 1)) := rfl
    rw [hn, isFinite_neg_eq]
    refine (within_ofNat ?_).finite
    rw [Int.negSucc_eq, abs_neg, abs_of_nonneg (by omega)] at h
    omega

end QueryForecast.Numeric
