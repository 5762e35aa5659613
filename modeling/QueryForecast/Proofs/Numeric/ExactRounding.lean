import QueryForecast.Numeric.Fused
import QueryForecast.Proofs.Numeric.Arithmetic

/-!
# Exact values and their one rounding

* `ExactValue.rat` — the number that an exact value stands for.
* `ExactValue.rat_ofFloat` — reading a finite double is exact.
* `ExactValue.nearest_toFloat` — writing an exact value rounds it to the nearest double.
* `nearest_fused` — so a product and a sum are rounded once.
-/

namespace QueryForecast.Numeric

open Float.Model Float.Model.UnpackedFloat

namespace ExactValue

/-- The number that an exact value stands for. -/
def rat (d : ExactValue) : ℚ :=
  (d.signed : ℚ) * 2 ^ d.exponent

theorem rat_eq (d : ExactValue) :
    d.rat = Numeric.signed (signOf d.negative) (d.mantissa * 2 ^ d.exponent) := by
  obtain ⟨negative, m, e⟩ := d
  cases negative <;> simp [rat, signed, signOf, Numeric.signed]

/-- Reading a finite double is exact. -/
theorem rat_ofFloat {x : Float} (h : x.isFinite) : (ofFloat x).rat = val x := by
  rw [isFinite_eq, unpacked_eq] at h
  rw [rat_eq, val, unpacked_eq]
  unfold ofFloat
  by_cases h0 : exponentField x = 0
  · rw [if_pos h0, h0]
    unfold ofFields
    rw [if_neg (by decide), if_pos rfl]
    split
    · rename_i hf
      cases signBit x <;> simp [Numeric.signed, signOf, value, hf]
    · rfl
  · rw [if_neg h0]
    unfold ofFields at h ⊢
    by_cases h1 : exponentField x = 2047
    · rw [if_pos h1] at h
      split at h <;> cases h
    · rw [if_neg h1, if_neg h0]
      rfl

theorem rat_mul (a b : ExactValue) : (a.mul b).rat = a.rat * b.rat := by
  unfold rat
  rw [signed_mul, show (a.mul b).exponent = a.exponent + b.exponent from rfl,
    zpow_add₀ (by norm_num)]
  push_cast
  ring

theorem zpow_min_add (e : ℤ) {least : ℤ} (h : least ≤ e) :
    (twoPow (e - least).toNat : ℚ) * 2 ^ least = 2 ^ e := by
  obtain ⟨d, rfl⟩ := Int.le.dest h
  rw [show (least + d - least : ℤ).toNat = d by omega, zpow_add₀ (by norm_num), zpow_natCast,
    mul_comm]
  simp [twoPow]

theorem rat_add (a b : ExactValue) : (a.add b).rat = a.rat + b.rat := by
  unfold rat
  rw [signed_add, show (a.add b).exponent = min a.exponent b.exponent from rfl]
  push_cast
  rw [add_mul, mul_assoc, mul_assoc, zpow_min_add _ (min_le_left _ _),
    zpow_min_add _ (min_le_right _ _)]

/-! ## Writing a double -/

/-- A pattern of units is a double with that many units in its mantissa. -/
theorem unpacked_pattern {r : ℕ} {t : ℤ} (hr : r ≤ 0x20000000000000) (ht : -1074 ≤ t)
    (hn : t = -1074 ∨ 0x10000000000000 ≤ r) :
    unpacked (Float.ofBits (UInt64.ofNat
        (min ((t + 1074).toNat * 0x10000000000000 + r) 0x7ff0000000000000))) =
      settled (ofUnits .positive r t) := by
  obtain ⟨p, hp⟩ : ∃ p, p = min ((t + 1074).toNat * 0x10000000000000 + r) 0x7ff0000000000000 :=
    ⟨_, rfl⟩
  have hb : (UInt64.ofNat p).toNat = p := UInt64.toNat_ofNat_of_lt' (by rw [UInt64.size]; omega)
  rw [← hp, unpacked_ofBits, hb, signOf, if_neg (by simp; omega)]
  unfold ofUnits
  by_cases h0 : r = 0
  · rw [dif_pos h0, show p / 0x10000000000000 % 2048 = 0 by omega,
      show p % 0x10000000000000 = 0 by omega]
    rfl
  · rw [dif_neg h0]
    by_cases hs : r < 0x10000000000000
    · rw [if_pos (by omega), settled, if_neg (by omega),
        show p / 0x10000000000000 % 2048 = 0 by omega, show p % 0x10000000000000 = r by omega,
        ofFields, if_neg (by decide), if_pos rfl, dif_neg h0]
      exact finite_congr rfl (by omega)
    · by_cases hc : r < 0x20000000000000
      · rw [if_pos hc, settled]
        by_cases hi : 971 < t
        · rw [if_pos hi, show p / 0x10000000000000 % 2048 = 2047 by omega,
            show p % 0x10000000000000 = 0 by omega]
          rfl
        · rw [if_neg hi, ofFields, if_neg (by omega), if_neg (by omega)]
          exact finite_congr (by omega) (by omega)
      · rw [if_neg hc, settled]
        by_cases hi : 971 < t + 1
        · rw [if_pos hi, show p / 0x10000000000000 % 2048 = 2047 by omega,
            show p % 0x10000000000000 = 0 by omega]
          rfl
        · rw [if_neg hi, ofFields, if_neg (by omega), if_neg (by omega)]
          exact finite_congr (by omega) (by omega)

theorem cast_twoPow (n : ℕ) : (twoPow n : ℚ) = 2 ^ n := by
  simp [twoPow]

/-- Shifting to a unit is exact as a quotient. -/
theorem shifted_div (m : ℕ) (e t : ℤ) :
    ((m * twoPow (e - t).toNat : ℕ) : ℚ) / (twoPow (-(e - t)).toNat : ℕ) = m * 2 ^ e / 2 ^ t := by
  push_cast
  rw [cast_twoPow, cast_twoPow]
  by_cases h : t ≤ e
  · obtain ⟨d, rfl⟩ := Int.le.dest h
    rw [show (t + d - t : ℤ).toNat = d by omega, show (-(t + d - t) : ℤ).toNat = 0 by omega,
      zpow_add₀ (by norm_num), zpow_natCast]
    field_simp
  · obtain ⟨d, rfl⟩ := Int.le.dest (show e ≤ t by omega)
    rw [show (e - (e + d) : ℤ).toNat = 0 by omega, show (-(e - (e + d)) : ℤ).toNat = d by omega,
      zpow_add₀ (by norm_num), zpow_natCast]
    field_simp

theorem abs_divideToEven_sub_le (num : ℕ) {den : ℕ} (h : 0 < den) :
    |(divideToEven num den : ℚ) - num / den| ≤ 1 / 2 := by
  obtain ⟨h1, h2⟩ := divideToEven_near num h
  have hd : (0 : ℚ) < den := by exact_mod_cast h
  have h1' : (2 * num : ℚ) ≤ 2 * (divideToEven num den * den) + den := by exact_mod_cast h1
  have h2' : (2 * (divideToEven num den * den) : ℚ) ≤ 2 * num + den := by exact_mod_cast h2
  rw [← mul_le_mul_iff_of_pos_right hd, ← abs_of_pos hd, ← abs_mul, abs_of_pos hd, sub_mul,
    div_mul_cancel₀ _ hd.ne', abs_le]
  constructor <;> linarith

/-- In units that leave at most 53 bits, a magnitude is below `2^53`. -/
theorem scaled_lt {m : ℕ} {e t : ℤ} (h : (m.log2 : ℤ) + e - 52 ≤ t) :
    (m : ℚ) * 2 ^ e / 2 ^ t < 0x20000000000000 := by
  have hlog : (m : ℚ) < 2 ^ ((m.log2 : ℤ) + 1) := by
    rw [show ((m.log2 : ℤ) + 1) = ((m.log2 + 1 : ℕ) : ℤ) by push_cast; rfl, zpow_natCast]
    exact_mod_cast Nat.lt_log2_self
  rw [div_lt_iff₀ (by positivity)]
  calc (m : ℚ) * 2 ^ e < 2 ^ ((m.log2 : ℤ) + 1) * 2 ^ e :=
        mul_lt_mul_of_pos_right hlog (by positivity)
    _ = 2 ^ ((m.log2 : ℤ) + 1 + e) := (zpow_add₀ (by norm_num) _ _).symm
    _ ≤ 2 ^ (53 + t) := zpow_le_zpow_right₀ (by norm_num) (by omega)
    _ = 0x20000000000000 * 2 ^ t := by
      rw [zpow_add₀ (by norm_num)]
      norm_num

/-- In units that leave 53 bits, it is not below `2^52`. -/
theorem le_scaled {m : ℕ} (hm : m ≠ 0) {e t : ℤ} (h : t = (m.log2 : ℤ) + e - 52) :
    0x10000000000000 ≤ (m : ℚ) * 2 ^ e / 2 ^ t := by
  have hlog : (2 : ℚ) ^ (m.log2 : ℤ) ≤ m := by
    rw [zpow_natCast]
    exact_mod_cast Nat.log2_self_le hm
  rw [le_div_iff₀ (by positivity)]
  calc (0x10000000000000 : ℚ) * 2 ^ t = 2 ^ (52 + t) := by
        rw [zpow_add₀ (by norm_num)]
        norm_num
    _ = 2 ^ (m.log2 : ℤ) * 2 ^ e := by
      rw [← zpow_add₀ (by norm_num)]
      congr 1
      omega
    _ ≤ m * 2 ^ e := mul_le_mul_of_nonneg_right hlog (by positivity)

/-- The magnitude of an exact value is rounded by counting units. -/
theorem nearest_ofUnits {m : ℕ} (hm : m ≠ 0) (e : ℤ) {t : ℤ}
    (ht : t = max ((m.log2 : ℤ) + e - 52) (-1074)) :
    Nearest (m * 2 ^ e) (Float.ofBits (UInt64.ofNat (min ((t + 1074).toNat * 0x10000000000000 +
      divideToEven (m * twoPow (e - t).toNat) (twoPow (-(e - t)).toNat)) 0x7ff0000000000000))) := by
  have hnear := abs_divideToEven_sub_le (m * twoPow (e - t).toNat) (twoPow_pos (-(e - t)).toNat)
  rw [shifted_div] at hnear
  -- The mantissa has at most 53 bits above the unit, and 53 unless the unit is the least.
  have hup : (m : ℚ) * 2 ^ e / 2 ^ t < 0x20000000000000 := scaled_lt (by omega)
  have hlow : t = -1074 ∨ 0x10000000000000 ≤ (m : ℚ) * 2 ^ e / 2 ^ t :=
    (em (t = -1074)).imp_right fun hmin => le_scaled hm (by omega)
  have hr := ge_of_near (n := 0x20000000000000) hnear (by exact_mod_cast hup.le)
  refine ⟨_, ⟨.positive, _, t, rfl, hr, by omega, hnear,
    hlow.imp_right fun h => h.trans (le_abs_self _)⟩, ?_⟩
  exact unpacked_pattern hr (by omega)
    (hlow.imp_right fun h => le_of_near hnear (by exact_mod_cast h))

/-- **Writing an exact value rounds it to the nearest double.** -/
theorem nearest_toFloat (d : ExactValue) : Nearest d.rat d.toFloat := by
  obtain ⟨negative, m, e⟩ := d
  rw [rat_eq]
  unfold toFloat
  dsimp only
  suffices h : Nearest (m * 2 ^ e) (Float.ofBits (UInt64.ofNat (min (if m = 0 then 0 else
      (max ((m.log2 : ℤ) + e - 52) (-1074) + 1074).toNat * 0x10000000000000 +
        divideToEven (m * twoPow (e - max ((m.log2 : ℤ) + e - 52) (-1074)).toNat)
          (twoPow (-(e - max ((m.log2 : ℤ) + e - 52) (-1074))).toNat)) 0x7ff0000000000000))) by
    cases negative
    · exact h
    · exact h.neg
  by_cases hm : m = 0
  · subst hm
    rw [if_pos rfl, Nat.cast_zero, zero_mul]
    exact ⟨.zero .positive, rounds_zero _, unpacked_ofBits 0⟩
  · rw [if_neg hm]
    exact nearest_ofUnits hm e rfl

end ExactValue

/-- **A product and a sum with one rounding.** -/
theorem nearest_fused {x y z : Float} (hx : x.isFinite) (hy : y.isFinite) (hz : z.isFinite) :
    Nearest (val x * val y + val z) (fused x y z) := by
  have hrat : (((ExactValue.ofFloat x).mul (ExactValue.ofFloat y)).add (ExactValue.ofFloat z)).rat =
      val x * val y + val z := by
    rw [ExactValue.rat_add, ExactValue.rat_mul, ExactValue.rat_ofFloat hx,
      ExactValue.rat_ofFloat hy, ExactValue.rat_ofFloat hz]
  unfold fused
  rw [if_pos (by rw [hx, hy]; rfl), if_pos hz]
  dsimp only
  split
  · rename_i h0
    -- The sum vanishes, so the product is the double `-z`, and plain arithmetic is exact.
    have hv : val x * val y = -val z := by
      rw [ExactValue.rat_eq, h0, Nat.cast_zero, zero_mul] at hrat
      have hs : ∀ s, signed s 0 = 0 := fun s => by cases s <;> simp [signed]
      rw [hs] at hrat
      linarith
    have hp := nearest_mul hx hy
    rw [hv] at hp
    obtain ⟨hf, hr⟩ := hp.finite_of_le (isDouble_val z).abs (by rw [abs_neg]) (abs_val_lt z)
    have hadd := nearest_add hf hz
    rw [show val (x * y) = -val z from hr.value_eq (isDouble_val z).neg] at hadd
    rw [hv]
    exact hadd
  · rw [← hrat]
    exact ExactValue.nearest_toFloat _

end QueryForecast.Numeric
