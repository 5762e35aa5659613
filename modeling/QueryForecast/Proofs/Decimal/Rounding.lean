import QueryForecast.Proofs.Decimal.Digits
import QueryForecast.Proofs.Numeric.Defined
import QueryForecast.Proofs.Numeric.Neighbourhood

/-!
# Decimal numbers rounded to doubles

* `Numeral.rat` — the number that a decimal stands for.
* `nearestEven_ofScientific_up`, `nearestEven_ofScientific_down` — a decimal is rounded once, whether
  by the table of exact powers of ten or by exact integer arithmetic.
* `toFloat_eq_of_around` — a decimal around a double is read as that double.
-/

namespace QueryForecast.Decimal

open Numeric Float.Model Float.Model.UnpackedFloat

/-- The number that a decimal stands for. -/
def Numeral.rat (x : Numeral) : ℚ :=
  x.digits * 10 ^ x.exponent

/-! ## Powers of ten -/

/-- The fields of the powers of ten in the table. -/
theorem fields_exactlyRepresentablePowersOfTen :
    ∀ n (_ : n < Float.exactlyRepresentablePowersOfTen.size),
      let x := Float.exactlyRepresentablePowersOfTen[n]
      signBit x = false ∧ 1023 ≤ exponentField x ∧ exponentField x < 2047 ∧
        (0x10000000000000 + fractionField x) * 2 ^ (exponentField x - 1023) =
          10 ^ n * 0x10000000000000 := by
  decide +kernel

/-- The powers of ten in the table are exact. -/
theorem val_exactlyRepresentablePowersOfTen {n : ℕ}
    (h : n < Float.exactlyRepresentablePowersOfTen.size) :
    Float.exactlyRepresentablePowersOfTen[n].isFinite = true ∧
      val Float.exactlyRepresentablePowersOfTen[n] = 10 ^ n := by
  obtain ⟨hs, hl, hu, he⟩ := fields_exactlyRepresentablePowersOfTen n h
  generalize Float.exactlyRepresentablePowersOfTen[n] = x at hs hl hu he ⊢
  obtain ⟨d, hd⟩ := Nat.exists_eq_add_of_le hl
  rw [hd, Nat.add_sub_cancel_left] at he
  obtain ⟨hf, hv⟩ := val_of_fields hd rfl hs (by omega) (by omega)
  refine ⟨hf, hv.trans ?_⟩
  have hq : ((0x10000000000000 + fractionField x : ℕ) : ℚ) * 2 ^ d = 10 ^ n * 0x10000000000000 := by
    exact_mod_cast he
  show _ * _ = _
  rw [show ((1023 + d : ℕ) : ℤ) - 1075 = d - 52 by push_cast; omega, zpow_sub₀ (by norm_num),
    zpow_natCast, ← mul_div_assoc, hq, div_eq_iff (by positivity)]
  norm_num

/-! ## Rounding -/

/-- The parts of a power of ten. -/
theorem value_pow_ten (n : ℕ) (h : 0 < 10 ^ n) : value (.finite .positive (10 ^ n) 0 h) = 10 ^ n := by
  simp [value, signed]

/-- A multiple of a power of ten is shifted far to the left first, so that there are enough digits to
be cut. -/
theorem roundsEven_mul_pow_ten {m : ℕ} (hm : m ≠ 0) (n : ℕ) :
    RoundsEven (m * 10 ^ n)
      (roundWithAccuracy double .positive ((m <<< 53) * 10 ^ n) (-53) .exact) := by
  have hlog : 52 ≤ ((m <<< 53) * 10 ^ n).log2 := by
    have hpow : 0 < 10 ^ n := by positivity
    rw [Nat.le_log2 (by rw [Nat.shiftLeft_eq]; positivity), Nat.shiftLeft_eq]
    calc 2 ^ 52 ≤ 1 * 2 ^ 53 * 1 := by norm_num
      _ ≤ m * 2 ^ 53 * 10 ^ n :=
        Nat.mul_le_mul (Nat.mul_le_mul_right _ (Nat.pos_of_ne_zero hm)) hpow
  have h := roundsEven_roundWithAccuracy .positive (e := -53)
    (show Holds (.ofMantissaAndAccuracy ((m <<< 53) * 10 ^ n) .exact)
      (((m <<< 53) * 10 ^ n : ℕ) : ℚ) from rfl) (.inl hlog)
  have hv : signed .positive ((((m <<< 53) * 10 ^ n : ℕ) : ℚ) * 2 ^ (-53 : ℤ)) = m * 10 ^ n := by
    rw [Nat.shiftLeft_eq, signed, zpow_neg, ← div_eq_mul_inv, div_eq_iff (by positivity)]
    push_cast
    ring
  rwa [hv] at h

/-- **Exact integer arithmetic rounds a decimal once.** -/
theorem roundsEven_ofScientific {m : ℕ} (hm : m ≠ 0) {e : ℤ} (hl : -(2048 + m.log2 : ℤ) ≤ e)
    (hu : e ≤ 2048) : RoundsEven (m * 10 ^ e) (UnpackedFloat.ofScientific double m e) := by
  have hb : double.exponentBits = 11 := rfl
  unfold UnpackedFloat.ofScientific
  rw [dif_neg hm, if_neg (by rw [hb]; omega), if_neg (by rw [hb]; omega)]
  split
  · obtain ⟨n, rfl⟩ := Int.eq_ofNat_of_zero_le ‹0 ≤ e›
    rw [zpow_natCast]
    exact roundsEven_mul_pow_ten hm n
  · have hm' : value (.finite .positive m 0 (Nat.pos_of_ne_zero hm)) = m := by simp [value, signed]
    have h := roundsEven_div (f := .finite .positive m 0 (Nat.pos_of_ne_zero hm))
      (g := .finite .positive (10 ^ (-e).toNat) 0 (by positivity)) rfl rfl (by
        rw [value_pow_ten]
        positivity)
    have he : (10 : ℚ) ^ e = (10 ^ (-e).toNat)⁻¹ := by
      rw [← zpow_natCast, ← zpow_neg]
      congr 1
      omega
    rw [hm', value_pow_ten] at h
    rw [he, ← div_eq_mul_inv]
    exact h

theorem nearestEven_ofScientific_up {m n : ℕ} (hm : m ≠ 0) (hn : n ≤ 2048) :
    NearestEven (m * 10 ^ n) (Float.ofScientific m false n) := by
  unfold Float.ofScientific
  split
  · rename_i hc
    obtain ⟨hf, hv⟩ := val_toFloat hc.1
    have hsize : n < Float.exactlyRepresentablePowersOfTen.size := Nat.lt_succ_of_le hc.2
    obtain ⟨hf', hv'⟩ := val_exactlyRepresentablePowersOfTen hsize
    have h := nearestEven_mul hf hf'
    rwa [hv, hv'] at h
  · show NearestEven _ (packed (UnpackedFloat.ofScientific double m n))
    have h := roundsEven_ofScientific hm (e := n) (by omega) (by omega)
    rw [zpow_natCast] at h
    exact nearestEven_packed h

theorem nearestEven_ofScientific_down {m n : ℕ} (hm : m ≠ 0)
    (hn : n ≤ 2048 + m.log2) : NearestEven (m / 10 ^ n) (Float.ofScientific m true n) := by
  unfold Float.ofScientific
  split
  · rename_i hc
    obtain ⟨hf, hv⟩ := val_toFloat hc.1
    have hsize : n < Float.exactlyRepresentablePowersOfTen.size := Nat.lt_succ_of_le hc.2
    obtain ⟨hf', hv'⟩ := val_exactlyRepresentablePowersOfTen hsize
    have h := nearestEven_div hf hf' (by rw [hv']; positivity)
    rwa [hv, hv'] at h
  · show NearestEven _ (packed (UnpackedFloat.ofScientific double m (Int.negOfNat n)))
    have h := roundsEven_ofScientific hm (e := -(n : ℤ)) (by omega) (by omega)
    rw [zpow_neg, zpow_natCast, ← div_eq_mul_inv] at h
    exact nearestEven_packed h

/-! ## Readings -/

/-- The place of the leading digit bounds a decimal. -/
theorem Numeral.rat_bounds {y : Numeral} (h : y.digits ≠ 0) :
    (10 : ℚ) ^ ((digitsOf y.digits).length + y.exponent - 1) ≤ y.rat ∧
      y.rat < 10 ^ ((digitsOf y.digits).length + y.exponent) := by
  have hpos := length_digitsOf_pos y.digits
  have hl : ((10 ^ ((digitsOf y.digits).length - 1) : ℕ) : ℚ) ≤ y.digits := by
    exact_mod_cast pow_le_of_length_digitsOf h
  have hu : (y.digits : ℚ) < ((10 ^ (digitsOf y.digits).length : ℕ) : ℚ) := by
    exact_mod_cast lt_pow_length_digitsOf y.digits
  push_cast at hl hu
  unfold Numeral.rat
  constructor
  · rw [show ((digitsOf y.digits).length + y.exponent - 1 : ℤ) =
      (((digitsOf y.digits).length - 1 : ℕ) : ℤ) + y.exponent by omega, zpow_add₀ (by norm_num),
      zpow_natCast]
    exact mul_le_mul_of_nonneg_right hl (by positivity)
  · rw [zpow_add₀ (by norm_num), zpow_natCast]
    exact mul_lt_mul_of_pos_right hu (by positivity)

/-- **A decimal near the range of doubles is rounded.** -/
theorem nearestEven_toFloat {y : Numeral} (hl : (10 : ℚ) ^ (-331 : ℤ) ≤ y.rat)
    (hu : y.rat < 10 ^ (310 : ℤ)) : NearestEven y.rat (toFloat false y) := by
  have h0 : y.digits ≠ 0 := by
    intro h
    unfold Numeral.rat at hl
    rw [h, Nat.cast_zero, zero_mul] at hl
    exact absurd hl (not_le.2 (by positivity))
  obtain ⟨hlow, hhigh⟩ := Numeral.rat_bounds h0
  have hpos := length_digitsOf_pos y.digits
  have htop := (zpow_lt_zpow_iff_right₀ (by norm_num : (1 : ℚ) < 10)).1 (hlow.trans_lt hu)
  have hbottom := (zpow_lt_zpow_iff_right₀ (by norm_num : (1 : ℚ) < 10)).1 (hl.trans_lt hhigh)
  -- A number has no more decimal digits than binary ones.
  have hlog : (digitsOf y.digits).length - 1 ≤ y.digits.log2 :=
    (Nat.le_log2 h0).2 ((Nat.pow_le_pow_left (by norm_num) _).trans (pow_le_of_length_digitsOf h0))
  unfold toFloat
  dsimp only
  rw [if_neg (by decide), if_neg h0, if_neg (by omega), if_neg (by omega)]
  split
  · obtain ⟨n, hn⟩ := Int.eq_ofNat_of_zero_le ‹0 ≤ y.exponent›
    unfold Numeral.rat
    rw [hn, zpow_natCast]
    exact nearestEven_ofScientific_up h0 (by omega)
  · obtain ⟨n, hn⟩ := Int.eq_ofNat_of_zero_le (show 0 ≤ -y.exponent by omega)
    unfold Numeral.rat
    rw [show y.exponent = -(n : ℤ) by omega, zpow_neg, zpow_natCast, neg_neg, ← div_eq_mul_inv]
    exact nearestEven_ofScientific_down h0 (by omega)

/-- A number denotes the magnitude of a double: it is zero for zero, and is rounded to it otherwise. -/
def Denotes (v : ℚ) (x : Float) : Prop :=
  match unpacked x with
  | .zero _ => v = 0
  | .finite _ m e _ => Around m e v
  | _ => False

theorem pow_ten_le_least : (10 : ℚ) ^ (-331 : ℤ) ≤ 1 / 2 * 2 ^ (-1074 : ℤ) := by
  have h : ((2 ^ 1075 : ℕ) : ℚ) ≤ ((10 ^ 331 : ℕ) : ℚ) := Nat.cast_le.2 (by decide +kernel)
  rw [Nat.cast_pow, Nat.cast_pow, Nat.cast_ofNat, Nat.cast_ofNat] at h
  have he : (1 : ℚ) / 2 * 2 ^ (-1074 : ℤ) = (2 ^ 1075)⁻¹ := by
    rw [zpow_neg, pow_succ, mul_inv, mul_comm, one_div]
    rfl
  rw [he, zpow_neg]
  exact inv_anti₀ (by positivity) h

theorem range_lt_pow_ten : (2 : ℚ) ^ (53 : ℤ) * 2 ^ (971 : ℤ) < 10 ^ (310 : ℤ) := by
  have h : ((2 ^ 1024 : ℕ) : ℚ) < ((10 ^ 310 : ℕ) : ℚ) := Nat.cast_lt.2 (by decide +kernel)
  rw [Nat.cast_pow, Nat.cast_pow, Nat.cast_ofNat, Nat.cast_ofNat] at h
  rw [← zpow_add₀ (by norm_num)]
  exact h

/-- What lies around a double is not far from the range of doubles. -/
theorem bounds_of_around {m : ℕ} {e : ℤ} {hm : 0 < m} {v : ℚ} {s : Sign} {x : Float}
    (hx : unpacked x = .finite s m e hm) (ha : Around m e v) :
    (10 : ℚ) ^ (-331 : ℤ) ≤ v ∧ v < 10 ^ (310 : ℤ) := by
  have hfits := fits_unpacked x
  have hsettled := settled_unpacked x
  rw [hx] at hfits hsettled
  obtain ⟨hm53, he, -⟩ := hfits
  have he971 : e ≤ 971 := by
    by_contra h
    rw [settled, if_pos (by omega)] at hsettled
    cases hsettled
  have h2 : (0 : ℚ) < 2 ^ e := by positivity
  constructor
  · have hhalf := (lt_div_iff₀ h2).1 (ha.half_lt hm)
    calc (10 : ℚ) ^ (-331 : ℤ) ≤ 1 / 2 * 2 ^ (-1074 : ℤ) := pow_ten_le_least
      _ ≤ 1 / 2 * 2 ^ e :=
        mul_le_mul_of_nonneg_left (zpow_le_zpow_right₀ (by norm_num) he) (by norm_num)
      _ ≤ v := hhalf.le
  · have hmq : (m : ℚ) ≤ ((0x1fffffffffffff : ℕ) : ℚ) := by exact_mod_cast (by omega)
    push_cast at hmq
    calc v ≤ (m + 1 / 2) * 2 ^ e := (div_le_iff₀ h2).1 ha.high
      _ ≤ 2 ^ (53 : ℤ) * 2 ^ (971 : ℤ) :=
        mul_le_mul (by norm_num; linarith) (zpow_le_zpow_right₀ (by norm_num) he971) h2.le
          (by positivity)
      _ < 10 ^ (310 : ℤ) := range_lt_pow_ten

/-- **A decimal that denotes the magnitude of a double is read as the double.** -/
theorem toFloat_of_denotes {x : Float} {y : Numeral} (hx : x.isFinite = true)
    (h : Denotes y.rat x) : toFloat (signBit x) y = x := by
  have habs : toFloat false y = x.abs := by
    have hparts := unpacked_abs x
    unfold Denotes at h
    cases hu : unpacked x with
    | infinity s => rw [hu] at h; exact h.elim
    | notANumber => rw [hu] at h; exact h.elim
    | zero s =>
      rw [hu] at h hparts
      have h0 : y.digits = 0 := by
        have hp : (10 : ℚ) ^ y.exponent ≠ 0 := by positivity
        exact_mod_cast (mul_eq_zero.1 h).resolve_right hp
      have hz : toFloat false y = 0.0 := by
        unfold toFloat
        dsimp only
        rw [if_neg Bool.false_ne_true, if_pos h0]
      rw [hz]
      refine eq_of_unpacked_eq (by decide +kernel) ?_
      rw [hparts, show (0.0 : Float) = Float.ofBits 0 by decide +kernel]
      exact unpacked_ofBits 0
    | finite s m e hm =>
      rw [hu] at h hparts
      obtain ⟨hl, hr⟩ := bounds_of_around hu h
      exact (nearestEven_toFloat hl hr).eq_of_around hparts h
  have hsign : toFloat (signBit x) y =
      if signBit x then -toFloat false y else toFloat false y := by
    cases signBit x <;> rfl
  rw [hsign, habs, signed_abs hx]

end QueryForecast.Decimal
