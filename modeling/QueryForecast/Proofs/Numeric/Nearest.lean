import QueryForecast.Proofs.Numeric.ExactRounding
import QueryForecast.Proofs.Numeric.Undefined

/-!
# Natural numbers as doubles

A double has 53 bits, so of a longer natural number the last ones are rounded: it becomes a whole number
of units, where the unit is a power of two that leaves 53 bits.

* `nearestDouble` — a natural number rounded to the nearest double.
* `abs_nearestDouble_sub_le` — no double is nearer, and so `nearestDouble_mono` — rounding keeps the order.
* `nearestDouble_of_le` — up to `2^53` nothing is rounded.
* `val_toFloat_eq` — whole numbers of 64 bits are rounded in this way.
-/

namespace QueryForecast.Numeric

open Float.Model Float.Model.UnpackedFloat

/-- The weight of the last place when a natural number is cut to 53 bits. -/
def placeWeight (n : ℕ) : ℕ :=
  2 ^ (n.log2 - 52)

/-- A natural number rounded to the nearest double, to the even one of two that are equally near. -/
def nearestDouble (n : ℕ) : ℕ :=
  divideToEven n (placeWeight n) * placeWeight n

/-! ## Rounded quotients -/

/-- Two whole numbers are not both within half a unit of a number. -/
theorem one_le_abs_sub_add {k l : ℤ} (h : k ≠ l) (q : ℚ) : 1 ≤ |(k : ℚ) - q| + |(l : ℚ) - q| := by
  have hapart : (1 : ℚ) ≤ |(k : ℚ) - l| := by exact_mod_cast Int.one_le_abs (sub_ne_zero.2 h)
  calc (1 : ℚ) ≤ |(k : ℚ) - l| := hapart
    _ ≤ |(k : ℚ) - q| + |q - l| := abs_sub_le _ _ _
    _ = |(k : ℚ) - q| + |(l : ℚ) - q| := by rw [abs_sub_comm q]

/-- No whole number is nearer to a quotient than the rounded one. -/
theorem abs_divideToEven_sub_le_abs (num : ℕ) {den : ℕ} (h : 0 < den) (k : ℤ) :
    |(divideToEven num den : ℚ) - num / den| ≤ |(k : ℚ) - num / den| := by
  by_cases hk : k = divideToEven num den
  · rw [hk, Int.cast_natCast]
  · have hnear := ExactValue.abs_divideToEven_sub_le num h
    have hapart := one_le_abs_sub_add hk (num / den)
    rw [Int.cast_natCast] at hapart
    linarith

/-- A quotient halfway between two whole numbers is rounded to the even one. -/
theorem divideToEven_even (num : ℕ) {den : ℕ} (h : 0 < den)
    (ht : |(divideToEven num den : ℚ) - num / den| = 1 / 2) : divideToEven num den % 2 = 0 := by
  have hd : (den : ℚ) ≠ 0 := by exact_mod_cast h.ne'
  have htie : 2 * (divideToEven num den * den) = 2 * num + den ∨
      2 * (divideToEven num den * den) + den = 2 * num := by
    rcases (abs_eq (by norm_num)).1 ht with he | he
    · left
      field_simp at he
      have : (2 : ℚ) * (divideToEven num den * den) = 2 * num + den := by linarith
      exact_mod_cast this
    · right
      field_simp at he
      have : (2 : ℚ) * (divideToEven num den * den) + den = 2 * num := by linarith
      exact_mod_cast this
  have hdiv := Nat.div_add_mod num den
  have hlt := Nat.mod_lt num h
  rw [Nat.mul_comm] at hdiv
  unfold divideToEven at htie ⊢
  split at htie
  · omega
  · split at htie
    · rw [Nat.add_mul, Nat.one_mul] at htie
      omega
    · rename_i h1 h2
      rw [if_neg h1, if_neg h2]
      omega

/-- Rounding a quotient by its remembered bits. -/
theorem roundedMantissa_eq {em : ExtendedMantissa} {num den : ℕ} (h : 0 < den)
    (hh : Holds em (num / den)) : em.roundedMantissa = divideToEven num den := by
  have h1 := hh.abs_roundedMantissa_sub_le
  have h2 := ExactValue.abs_divideToEven_sub_le num h
  by_contra hne
  -- Both are so near only when the quotient is halfway between them, and then both are even.
  have hapart := one_le_abs_sub_add (k := em.roundedMantissa) (l := divideToEven num den)
    (by exact_mod_cast hne) (num / den)
  rw [Int.cast_natCast, Int.cast_natCast] at hapart
  have he := hh.roundedMantissa_even (by linarith)
  have he' := divideToEven_even num h (by linarith)
  have hclose : |(em.roundedMantissa : ℚ) - divideToEven num den| ≤ 1 := by
    have htri := abs_sub_le (em.roundedMantissa : ℚ) (num / den) (divideToEven num den)
    rw [abs_sub_comm (num / den : ℚ)] at htri
    linarith
  obtain ⟨hl, hu⟩ := abs_le.1 hclose
  have hl' : divideToEven num den ≤ em.roundedMantissa + 1 := by
    have : (divideToEven num den : ℚ) ≤ em.roundedMantissa + 1 := by linarith
    exact_mod_cast this
  have hu' : em.roundedMantissa ≤ divideToEven num den + 1 := by
    have : (em.roundedMantissa : ℚ) ≤ divideToEven num den + 1 := by linarith
    exact_mod_cast this
  omega

/-! ## The nearest double -/

theorem placeWeight_pos (n : ℕ) : 0 < placeWeight n :=
  Nat.pow_pos (by decide)

theorem cast_placeWeight (n : ℕ) : (placeWeight n : ℚ) = 2 ^ (n.log2 - 52) := by
  rw [placeWeight, Nat.cast_pow, Nat.cast_ofNat]

theorem lt_mul_placeWeight (n : ℕ) : n < 0x20000000000000 * placeWeight n := by
  calc n < 2 ^ (n.log2 + 1) := Nat.lt_log2_self
    _ ≤ 2 ^ (53 + (n.log2 - 52)) := Nat.pow_le_pow_right (by decide) (by omega)
    _ = 2 ^ 53 * placeWeight n := Nat.pow_add 2 53 _

/-- A number that is cut keeps 53 bits. -/
theorem mul_placeWeight_le {n : ℕ} (h : 52 ≤ n.log2) : 0x10000000000000 * placeWeight n ≤ n := by
  have hn : n ≠ 0 := by
    rintro rfl
    exact absurd h (by decide)
  calc 2 ^ 52 * placeWeight n = 2 ^ (52 + (n.log2 - 52)) := (Nat.pow_add 2 52 _).symm
    _ = 2 ^ n.log2 := by rw [Nat.add_sub_cancel' h]
    _ ≤ n := Nat.log2_self_le hn

theorem nearestDouble_of_placeWeight {n : ℕ} (h : placeWeight n = 1) : nearestDouble n = n := by
  have hd := divideToEven_mul n one_pos
  unfold nearestDouble
  rw [mul_one] at hd
  rw [h, hd, mul_one]

/-- **Up to `2^53` nothing is rounded.** -/
theorem nearestDouble_of_le {n : ℕ} (h : n ≤ 0x20000000000000) : nearestDouble n = n := by
  rcases h.lt_or_eq with hlt | rfl
  · refine nearestDouble_of_placeWeight ?_
    have hlog : n.log2 ≤ 52 := by
      by_cases h0 : n = 0
      · subst h0
        decide
      · exact Nat.le_of_lt_succ ((Nat.log2_lt h0).2 hlt)
    rw [placeWeight, Nat.sub_eq_zero_of_le hlog, pow_zero]
  · decide +kernel

theorem divideToEven_placeWeight_le (n : ℕ) : divideToEven n (placeWeight n) ≤ 0x20000000000000 := by
  have hw : (0 : ℚ) < placeWeight n := by exact_mod_cast placeWeight_pos n
  have hlt : (n : ℚ) < ((0x20000000000000 * placeWeight n : ℕ) : ℚ) := by
    exact_mod_cast lt_mul_placeWeight n
  rw [Nat.cast_mul, ← div_lt_iff₀ hw] at hlt
  exact ge_of_near (ExactValue.abs_divideToEven_sub_le n (placeWeight_pos n)) hlt.le

/-- A rounded number is a double, also when it is halved or doubled some times. -/
theorem isDouble_nearestDouble_mul (n : ℕ) {t : ℤ} (ht : -1074 ≤ t) :
    IsDouble (nearestDouble n * 2 ^ t) := by
  refine ⟨divideToEven n (placeWeight n), (n.log2 - 52 : ℕ) + t, ?_, ?_, by omega⟩
  · rw [nearestDouble, Nat.cast_mul, cast_placeWeight, zpow_add₀ two_ne_zero, zpow_natCast,
      Int.cast_natCast, mul_assoc]
  · rw [Nat.abs_cast]
    exact_mod_cast divideToEven_placeWeight_le n

theorem isDouble_nearestDouble (n : ℕ) : IsDouble (nearestDouble n) := by
  have h := isDouble_nearestDouble_mul n (t := 0) (by decide)
  rwa [zpow_zero, mul_one] at h

/-- A double is not nearer to a number that is cut than some whole number of units. -/
theorem exists_units_near {n : ℕ} (h : 52 ≤ n.log2) {w : ℚ} (hw : IsDouble w) :
    ∃ k : ℤ, |(k : ℚ) - n / placeWeight n| ≤ |w / placeWeight n - n / placeWeight n| := by
  obtain ⟨k, j, rfl, hk, -⟩ := hw
  have hp : (0 : ℚ) < placeWeight n := by exact_mod_cast placeWeight_pos n
  have hunit : (placeWeight n : ℚ) = 2 ^ ((n.log2 - 52 : ℕ) : ℤ) := by
    rw [cast_placeWeight, zpow_natCast]
  by_cases hj : ((n.log2 - 52 : ℕ) : ℤ) ≤ j
  · -- The double is a whole number of units itself.
    obtain ⟨d, rfl⟩ := Int.le.dest hj
    refine ⟨k * 2 ^ d, le_of_eq ?_⟩
    rw [hunit, zpow_add₀ two_ne_zero, zpow_natCast _ d]
    push_cast
    congr 2
    field_simp
  · -- The double is at most the least number with so many bits.
    refine ⟨0x10000000000000, ?_⟩
    have hlow : ((0x10000000000000 * placeWeight n : ℕ) : ℚ) ≤ n := by
      exact_mod_cast mul_placeWeight_le h
    have hkq : (k : ℚ) ≤ 0x20000000000000 := by exact_mod_cast (le_abs_self k).trans hk
    have hjq : (2 : ℚ) ^ j ≤ 2 ^ (((n.log2 - 52 : ℕ) : ℤ) - 1) :=
      zpow_le_zpow_right₀ (by norm_num) (by omega)
    rw [zpow_sub_one₀ two_ne_zero, ← hunit] at hjq
    have hle : (k : ℚ) * 2 ^ j / placeWeight n ≤ 0x10000000000000 := by
      rw [div_le_iff₀ hp]
      calc (k : ℚ) * 2 ^ j ≤ 0x20000000000000 * 2 ^ j :=
            mul_le_mul_of_nonneg_right hkq (by positivity)
        _ ≤ 0x20000000000000 * (placeWeight n * 2⁻¹) :=
            mul_le_mul_of_nonneg_left hjq (by norm_num)
        _ = 0x10000000000000 * placeWeight n := by ring
    have hq : (0x10000000000000 : ℚ) ≤ n / placeWeight n := by
      rw [le_div_iff₀ hp]
      exact_mod_cast hlow
    push_cast
    rw [abs_of_nonpos (by linarith), abs_of_nonpos (by linarith)]
    linarith

/-- **No double is nearer to a natural number than the one it is rounded to.** -/
theorem abs_nearestDouble_sub_le (n : ℕ) {w : ℚ} (hw : IsDouble w) :
    |(nearestDouble n : ℚ) - n| ≤ |w - n| := by
  by_cases h : 52 ≤ n.log2
  · have hp : (0 : ℚ) < placeWeight n := by exact_mod_cast placeWeight_pos n
    obtain ⟨k, hk⟩ := exists_units_near h hw
    have hnear := (abs_divideToEven_sub_le_abs n (placeWeight_pos n) k).trans hk
    rw [← sub_div, abs_div, abs_of_pos hp, le_div_iff₀ hp] at hnear
    have hscale : ((nearestDouble n : ℕ) : ℚ) - n =
        ((divideToEven n (placeWeight n) : ℚ) - n / placeWeight n) * placeWeight n := by
      rw [nearestDouble, sub_mul, div_mul_cancel₀ _ hp.ne']
      push_cast
      rfl
    rwa [hscale, abs_mul, abs_of_pos hp]
  · rw [nearestDouble_of_placeWeight (by rw [placeWeight, Nat.sub_eq_zero_of_le (by omega), pow_zero]),
      sub_self, abs_zero]
    exact abs_nonneg _

/-- What is at most as far from the greater of two numbers lies in the upper half between them. -/
theorem add_le_two_mul {a b x : ℚ} (hab : a < b) (h : |b - x| ≤ |a - x|) : a + b ≤ 2 * x := by
  by_contra hlt
  have hclose : |a - x| < b - x := abs_lt.2 ⟨by linarith, by linarith⟩
  linarith [le_abs_self (b - x)]

theorem two_mul_le_add {a b x : ℚ} (hab : a < b) (h : |a - x| ≤ |b - x|) : 2 * x ≤ a + b := by
  have hneg := add_le_two_mul (neg_lt_neg hab) (x := -x) (by
    rwa [neg_sub_neg, neg_sub_neg, abs_sub_comm x, abs_sub_comm x])
  linarith

/-- **Rounding keeps the order.** -/
theorem nearestDouble_mono {m n : ℕ} (h : m ≤ n) : nearestDouble m ≤ nearestDouble n := by
  by_contra hlt
  have hlt' : (nearestDouble n : ℚ) < nearestDouble m := by exact_mod_cast not_le.1 hlt
  -- Two doubles in the wrong order leave no room between the two numbers.
  have hm := add_le_two_mul hlt' (abs_nearestDouble_sub_le m (isDouble_nearestDouble n))
  have hn := two_mul_le_add hlt' (abs_nearestDouble_sub_le n (isDouble_nearestDouble m))
  have hle : (n : ℚ) ≤ m := by linarith
  have he : m = n := le_antisymm h (by exact_mod_cast hle)
  rw [he] at hlt
  exact hlt (le_refl _)

/-! ## Whole numbers of 64 bits -/

/-- A number of more than 52 bits is rounded to whole units. -/
theorem ofNat_eq_ofUnits {n : ℕ} (h : 52 ≤ n.log2) : UnpackedFloat.ofNat double n =
    ofUnits .positive (divideToEven n (placeWeight n)) (n.log2 - 52 : ℕ) := by
  have hn : 0 < n := by
    by_contra h0
    rw [Nat.eq_zero_of_not_pos h0] at h
    exact absurd h (by decide)
  have hs := shiftToTargetExponent_eq n 0 .exact
  rw [show (0 : ℤ) + ((max (n.log2 + 0 - 52 : ℤ) (-1074) - 0).toNat : ℕ) = (n.log2 - 52 : ℕ) by omega,
    show (max (n.log2 + 0 - 52 : ℤ) (-1074) - 0).toNat = n.log2 - 52 by omega] at hs
  have hexact : Holds (.ofMantissaAndAccuracy n .exact) (n : ℚ) := rfl
  have hh := hexact.shiftRight (n.log2 - 52)
  rw [← cast_placeWeight] at hh
  have hr := roundedMantissa_eq (placeWeight_pos n) hh
  have hround : roundWithAccuracy double .positive n 0 .exact = _ :=
    roundWithAccuracy_eq hs (by rw [hr]; exact divideToEven_placeWeight_le n) (by omega)
  rw [hr] at hround
  rw [← hround]
  show UnpackedFloat.normalize double n 0 .positive = _
  unfold UnpackedFloat.normalize
  rw [Int.compare_eq_gt.2 (by exact_mod_cast hn)]
  unfold UnpackedFloat.round decreaseExponent
  dsimp only
  rw [targetExponent_eq, Int.toNat_natCast,
    show (0 - max (n.log2 + 0 - 52 : ℤ) (-1074)).toNat = 0 by omega]
  rfl

theorem nearestDouble_toNat_le (n : UInt64) : nearestDouble n.toNat ≤ 2 ^ 64 :=
  (nearestDouble_mono n.toNat_lt.le).trans (by decide +kernel)

/-- **A whole number of 64 bits becomes the double nearest to it.** -/
theorem val_toFloat_eq (n : UInt64) : val n.toFloat = nearestDouble n.toNat := by
  by_cases h : 52 ≤ n.toNat.log2
  · have hw : (0 : ℚ) < placeWeight n.toNat := by exact_mod_cast placeWeight_pos n.toNat
    have hlow : ((0x10000000000000 : ℕ) : ℚ) ≤ n.toNat / placeWeight n.toNat := by
      rw [le_div_iff₀ hw]
      exact_mod_cast mul_placeWeight_le h
    have hfits := fits_ofUnits (s := .positive) (t := (n.toNat.log2 - 52 : ℕ)) (by omega)
      (.inr (le_of_near (ExactValue.abs_divideToEven_sub_le n.toNat (placeWeight_pos _)) hlow))
    have hv : value (ofUnits .positive (divideToEven n.toNat (placeWeight n.toNat))
        (n.toNat.log2 - 52 : ℕ)) = nearestDouble n.toNat := by
      rw [value_ofUnits _ (divideToEven_placeWeight_le _), zpow_natCast, ← cast_placeWeight, signed,
        nearestDouble, Nat.cast_mul]
    have hlt : (nearestDouble n.toNat : ℚ) < 2 ^ (1024 : ℤ) := by
      calc (nearestDouble n.toNat : ℚ) ≤ 2 ^ 64 := by exact_mod_cast nearestDouble_toNat_le n
        _ = 2 ^ (64 : ℤ) := (zpow_natCast 2 64).symm
        _ < 2 ^ (1024 : ℤ) := zpow_lt_zpow_right₀ (by norm_num) (by norm_num)
    have hsettled := settled_of_abs_value_lt hfits (by rwa [hv, Nat.abs_cast])
    rw [val, unpacked_toFloat, ofNat_eq_ofUnits h, unpacked_packed hfits, hsettled, hv]
  · have hw : placeWeight n.toNat = 1 := by
      rw [placeWeight, Nat.sub_eq_zero_of_le (by omega), pow_zero]
    have hlt := lt_mul_placeWeight n.toNat
    rw [hw, mul_one] at hlt
    rw [nearestDouble_of_placeWeight hw, ← (val_toFloat hlt).2]
    exact congrArg (fun n => val (UInt64.toFloat n)) UInt64.ofNat_toNat.symm

end QueryForecast.Numeric
