import Mathlib.Algebra.Order.Field.Power
import Mathlib.Algebra.Order.Field.Rat
import Mathlib.Tactic.FieldSimp
import Mathlib.Tactic.Linarith
import Mathlib.Tactic.Positivity
import Mathlib.Tactic.Ring
import QueryForecast.Proofs.Numeric.Unpacked

/-!
# Rounding to the nearest double

The result of an operation is computed with as many bits as it has and then cut to the mantissa of a
double. The bits that are cut off are remembered as far as rounding needs them.

* `value` — the rational number that some parts stand for.
* `Holds` — a mantissa with its remembered bits stands for a rational number.
* `ofUnits` — the parts of a whole number of units, with the carry into the next exponent.
* `Rounds` — some parts are a nearest whole number of units, where the unit is that of a double;
  `RoundsEven` — an even one when two are equally near.
* `roundsEven_roundWithAccuracy`, `rounds_normalize` — the two ways in which results are rounded.
-/

namespace QueryForecast.Numeric

open Float.Model Float.Model.UnpackedFloat

/-- A number with a sign. -/
def signed : Sign → ℚ → ℚ
  | .negative, q => -q
  | .positive, q => q

/-- The number that some parts stand for; zero when they are not finite. -/
def value : UnpackedFloat → ℚ
  | .finite s m e _ => signed s (m * 2 ^ e)
  | _ => 0

/-! ## Remembered bits -/

/-- A mantissa stands for a number: up to half a unit and to which side of the half. -/
def Holds : ExtendedMantissa → ℚ → Prop
  | ⟨m, false, false⟩, u => u = m
  | ⟨m, false, true⟩, u => m < u ∧ u < m + 1 / 2
  | ⟨m, true, false⟩, u => u = m + 1 / 2
  | ⟨m, true, true⟩, u => m + 1 / 2 < u ∧ u < m + 1

theorem Holds.bounds {em : ExtendedMantissa} {u : ℚ} (h : Holds em u) :
    em.mantissa ≤ u ∧ u < em.mantissa + 1 := by
  obtain ⟨m, round, sticky⟩ := em
  cases round <;> cases sticky <;> simp only [Holds] at h ⊢ <;> constructor <;> linarith

theorem Holds.shiftRightOne {em : ExtendedMantissa} {u : ℚ} (h : Holds em u) :
    Holds em.shiftRightOne (u / 2) := by
  obtain ⟨m, round, sticky⟩ := em
  have hm : (m : ℚ) = 2 * (m / 2 : ℕ) + (m % 2 : ℕ) := by exact_mod_cast (Nat.div_add_mod m 2).symm
  unfold ExtendedMantissa.shiftRightOne
  -- The last bit of the mantissa becomes the round bit.
  rcases Nat.mod_two_eq_zero_or_one m with hp | hp
  · rw [hp] at hm ⊢
    cases round <;> cases sticky <;> simp [Holds] at h hm ⊢ <;>
      first | linarith | (constructor <;> linarith)
  · rw [hp] at hm ⊢
    cases round <;> cases sticky <;> simp [Holds] at h hm ⊢ <;>
      first | linarith | (constructor <;> linarith)

theorem shiftRight_zero (em : ExtendedMantissa) : em >>> 0 = em :=
  rfl

theorem shiftRight_succ (em : ExtendedMantissa) (n : ℕ) :
    em >>> (n + 1) = (em >>> n).shiftRightOne :=
  rfl

theorem Holds.shiftRight {em : ExtendedMantissa} {u : ℚ} (h : Holds em u) (n : ℕ) :
    Holds (em >>> n) (u / 2 ^ n) := by
  induction n with
  | zero =>
    rw [shiftRight_zero, pow_zero, div_one]
    exact h
  | succ n ih =>
    rw [shiftRight_succ, pow_succ, ← div_div]
    exact ih.shiftRightOne

/-- The rounded mantissa is a nearest whole number. -/
theorem Holds.abs_roundedMantissa_sub_le {em : ExtendedMantissa} {u : ℚ} (h : Holds em u) :
    |(em.roundedMantissa : ℚ) - u| ≤ 1 / 2 := by
  obtain ⟨m, round, sticky⟩ := em
  rw [abs_le]
  cases round <;> cases sticky <;>
    simp only [Holds, ExtendedMantissa.roundedMantissa, ExtendedMantissa.accuracy,
      Accuracy.roundToNearestEven] at h ⊢
  · constructor <;> linarith
  · constructor <;> linarith
  · rcases Nat.mod_two_eq_zero_or_one m with hp | hp <;> rw [hp] <;> push_cast <;>
      constructor <;> linarith
  · push_cast
    constructor <;> linarith

/-- Of two nearest whole numbers the even one is taken. -/
theorem Holds.roundedMantissa_even {em : ExtendedMantissa} {u : ℚ} (h : Holds em u)
    (ht : |(em.roundedMantissa : ℚ) - u| = 1 / 2) : em.roundedMantissa % 2 = 0 := by
  obtain ⟨m, round, sticky⟩ := em
  rw [abs_eq (by norm_num)] at ht
  cases round <;> cases sticky <;>
    simp only [Holds, ExtendedMantissa.roundedMantissa, ExtendedMantissa.accuracy,
      Accuracy.roundToNearestEven] at h ht ⊢
  · rcases ht with ht | ht <;> linarith
  · rcases ht with ht | ht <;> linarith
  · omega
  · push_cast at ht
    rcases ht with ht | ht <;> linarith

/-- A nearest whole number does not pass over another one. -/
theorem le_of_near {r n : ℕ} {q : ℚ} (h : |(r : ℚ) - q| ≤ 1 / 2) (hn : n ≤ q) : n ≤ r := by
  have hl := (abs_le.1 h).1
  have hq : (n : ℚ) < ((r + 1 : ℕ) : ℚ) := by
    push_cast
    linarith
  exact Nat.lt_succ_iff.1 (by exact_mod_cast hq)

theorem ge_of_near {r n : ℕ} {q : ℚ} (h : |(r : ℚ) - q| ≤ 1 / 2) (hn : q ≤ n) : r ≤ n := by
  have hl := (abs_le.1 h).2
  have hq : (r : ℚ) < ((n + 1 : ℕ) : ℚ) := by
    push_cast
    linarith
  exact Nat.lt_succ_iff.1 (by exact_mod_cast hq)

/-! ## Units -/

/-- The parts of `r` units of weight `2^t`. A full mantissa is carried into the exponent. -/
def ofUnits (s : Sign) (r : ℕ) (t : ℤ) : UnpackedFloat :=
  if h : r = 0 then .zero s
  else if r < 0x20000000000000 then .finite s r t (Nat.pos_of_ne_zero h)
  else .finite s 0x10000000000000 (t + 1) (by decide)

theorem value_ofUnits {s : Sign} {r : ℕ} (t : ℤ) (h : r ≤ 0x20000000000000) :
    value (ofUnits s r t) = signed s (r * 2 ^ t) := by
  unfold ofUnits
  split
  · rename_i hr
    subst hr
    cases s <;> simp [value, signed]
  · split
    · rfl
    · have hr : r = 0x20000000000000 := by omega
      subst hr
      show signed s _ = signed s _
      rw [zpow_add₀ (by norm_num)]
      congr 1
      push_cast
      ring

theorem fits_ofUnits {s : Sign} {r : ℕ} {t : ℤ} (ht : -1074 ≤ t)
    (hn : t = -1074 ∨ 0x10000000000000 ≤ r) : Fits (ofUnits s r t) := by
  unfold ofUnits
  split
  · trivial
  · split
    · rename_i hl
      exact ⟨hl, ht, hn.symm⟩
    · exact ⟨by decide, by omega, .inl (le_refl _)⟩

/-- The exponent that leaves 53 bits below the given one, and is no lower than the least. -/
theorem targetExponent_eq_max (e : ℤ) : double.targetExponent e = max (e - 53) (-1074) := by
  unfold Format.targetExponent
  rw [show (double.mantissaBits : ℤ) = 53 from rfl, show double.minExponent = -1074 by decide]

/-- The exponent that belongs to a mantissa with the given exponent. -/
theorem targetExponent_eq (m : ℕ) (e : ℤ) :
    double.targetExponent (totalExponent m e) = max (m.log2 + e - 52) (-1074) := by
  rw [targetExponent_eq_max, totalExponent]
  congr 1
  omega

theorem shiftToTargetExponent_eq (m : ℕ) (e : ℤ) (accuracy : Accuracy) :
    shiftToTargetExponent double m e accuracy =
      (ExtendedMantissa.ofMantissaAndAccuracy m accuracy >>>
          (max (m.log2 + e - 52 : ℤ) (-1074) - e).toNat,
        e + (max (m.log2 + e - 52 : ℤ) (-1074) - e).toNat) := by
  unfold shiftToTargetExponent shiftToExponent
  rw [targetExponent_eq]

/-- The second shift of a rounding only carries. -/
theorem shift_carry {r : ℕ} {t : ℤ} (hr : r ≤ 0x20000000000000) (ht : -1074 ≤ t) :
    shiftToTargetExponent double r t .exact =
      if r < 0x20000000000000 then (⟨r, false, false⟩, t)
      else (⟨0x10000000000000, false, false⟩, t + 1) := by
  rw [shiftToTargetExponent_eq]
  split
  · rename_i hl
    have hlog : r.log2 ≤ 52 := by
      by_cases h : r = 0
      · subst h
        decide
      · exact Nat.le_of_lt_succ ((Nat.log2_lt h).2 hl)
    rw [show (max (r.log2 + t - 52 : ℤ) (-1074) - t).toNat = 0 by omega, shiftRight_zero]
    exact Prod.ext rfl (by simp)
  · have hr : r = 2 ^ 53 := by omega
    subst hr
    rw [Nat.log2_two_pow, show (max ((53 : ℕ) + t - 52 : ℤ) (-1074) - t).toNat = 1 by omega]
    rfl

theorem roundWithAccuracy_eq {s : Sign} {m : ℕ} {e : ℤ} {accuracy : Accuracy}
    {em : ExtendedMantissa} {t : ℤ} (h : shiftToTargetExponent double m e accuracy = (em, t))
    (hr : em.roundedMantissa ≤ 0x20000000000000) (ht : -1074 ≤ t) :
    roundWithAccuracy double s m e accuracy = ofUnits s em.roundedMantissa t := by
  unfold roundWithAccuracy ofUnits
  dsimp only
  rw [h]
  dsimp only
  rw [shift_carry hr ht]
  by_cases hl : em.roundedMantissa < 0x20000000000000
  · simp only [if_pos hl]
  · simp only [if_neg hl]
    rw [dif_neg (by decide), dif_neg (by omega)]

/-! ## Nearest doubles -/

/-- Some parts are a nearest whole number of units, where the unit is that of a double with the
magnitude of the number. -/
def Rounds (v : ℚ) (f : UnpackedFloat) : Prop :=
  ∃ s r t, f = ofUnits s r t ∧ r ≤ 0x20000000000000 ∧ -1074 ≤ t ∧
    |signed s r - v / 2 ^ t| ≤ 1 / 2 ∧ (t = -1074 ∨ 0x10000000000000 ≤ |v / 2 ^ t|)

/-- Some parts are a nearest whole number of units, and an even one when two are equally near. -/
def RoundsEven (v : ℚ) (f : UnpackedFloat) : Prop :=
  ∃ s r t, f = ofUnits s r t ∧ r ≤ 0x20000000000000 ∧ -1074 ≤ t ∧
    |signed s r - v / 2 ^ t| ≤ 1 / 2 ∧ (t = -1074 ∨ 0x10000000000000 ≤ |v / 2 ^ t|) ∧
    (|signed s r - v / 2 ^ t| = 1 / 2 → r % 2 = 0)

theorem RoundsEven.rounds {v : ℚ} {f : UnpackedFloat} (h : RoundsEven v f) : Rounds v f := by
  obtain ⟨s, r, t, hf, hr, ht, hnear, hn, -⟩ := h
  exact ⟨s, r, t, hf, hr, ht, hnear, hn⟩

theorem signed_mul (s : Sign) (a b : ℚ) : signed s (a * b) = signed s a * b := by
  cases s <;> simp [signed]

theorem signed_div (s : Sign) (a b : ℚ) : signed s (a / b) = signed s a / b := by
  cases s <;> simp [signed, neg_div]

theorem abs_signed (s : Sign) (a : ℚ) : |signed s a| = |a| := by
  cases s <;> simp [signed]

theorem signed_neg (s : Sign) (a : ℚ) : signed (-s) a = -signed s a := by
  cases s with
  | negative => exact (neg_neg a).symm
  | positive => rfl

theorem abs_signed_sub (s : Sign) (a b : ℚ) : |signed s a - signed s b| = |a - b| := by
  cases s with
  | negative =>
    rw [show signed .negative a - signed .negative b = -(a - b) by simp [signed]; ring, abs_neg]
  | positive => rfl

/-- After a shift by some places, a mantissa with that many bits past the 53rd is below `2^53`. -/
theorem lt_of_log2_le {m k : ℕ} {u : ℚ} (hm : m.log2 ≤ 52 + k) (hu : u < m + 1) :
    u / 2 ^ k < 0x20000000000000 := by
  have hlog : ((m + 1 : ℕ) : ℚ) ≤ ((2 ^ (53 + k) : ℕ) : ℚ) := by
    exact_mod_cast (Nat.lt_log2_self (n := m)).trans_le (Nat.pow_le_pow_right (by omega) (by omega))
  rw [div_lt_iff₀ (by positivity)]
  rw [Nat.pow_add] at hlog
  push_cast at hlog
  linarith

theorem le_of_log2_eq {m k : ℕ} {u : ℚ} (hm0 : m ≠ 0) (hm : m.log2 = 52 + k) (hu : m ≤ u) :
    0x10000000000000 ≤ u / 2 ^ k := by
  have hlow : ((2 ^ (52 + k) : ℕ) : ℚ) ≤ (m : ℚ) := by
    rw [← hm]
    exact_mod_cast Nat.log2_self_le hm0
  rw [le_div_iff₀ (by positivity)]
  rw [Nat.pow_add] at hlow
  push_cast at hlow
  linarith

/-- **Rounding gives a nearest double, an even one on a tie**: the mantissa with its remembered bits
stands for the result in units of `2^e`, and has enough bits to be cut. -/
theorem roundsEven_roundWithAccuracy (s : Sign) {m : ℕ} {e : ℤ} {accuracy : Accuracy} {u : ℚ}
    (hu : Holds (.ofMantissaAndAccuracy m accuracy) u) (he : 52 ≤ m.log2 ∨ e ≤ -1074) :
    RoundsEven (signed s (u * 2 ^ e)) (roundWithAccuracy double s m e accuracy) := by
  have hm : (ExtendedMantissa.ofMantissaAndAccuracy m accuracy).mantissa = m := by
    cases accuracy with
    | exact => rfl
    | inexact o => cases o <;> rfl
  obtain ⟨hul, huu⟩ := hu.bounds
  rw [hm] at hul huu
  -- The shift goes right by `k` places, to the unit `2^t`.
  set t : ℤ := max (m.log2 + e - 52 : ℤ) (-1074) with ht
  set k : ℕ := (t - e).toNat with hk
  have hek : t = e + k := by omega
  have hs := shiftToTargetExponent_eq m e accuracy
  rw [← ht, ← hk, ← hek] at hs
  have hv : u * 2 ^ e / 2 ^ t = u / 2 ^ k := by
    rw [hek, zpow_add₀ (by norm_num), zpow_natCast]
    field_simp
  have hh := hu.shiftRight k
  have hnear := hh.abs_roundedMantissa_sub_le
  -- No more than 53 bits are left.
  have hup : u / 2 ^ k < 0x20000000000000 := lt_of_log2_le (by omega) huu
  have hr : (ExtendedMantissa.ofMantissaAndAccuracy m accuracy >>> k).roundedMantissa ≤
      0x20000000000000 := ge_of_near hnear (by exact_mod_cast hup.le)
  refine ⟨s, _, t, roundWithAccuracy_eq hs hr (by omega), hr, by omega, ?_, ?_, ?_⟩
  · rw [← signed_div, abs_signed_sub, hv]
    exact hnear
  · by_cases hmin : t = -1074
    · exact .inl hmin
    · refine .inr ?_
      have hm0 : m ≠ 0 := by
        rintro rfl
        have hlog : Nat.log2 0 = 0 := rfl
        omega
      rw [← signed_div, abs_signed, hv]
      exact (le_of_log2_eq hm0 (by omega) hul).trans (le_abs_self _)
  · rw [← signed_div, abs_signed_sub, hv]
    exact hh.roundedMantissa_even

theorem rounds_roundWithAccuracy (s : Sign) {m : ℕ} {e : ℤ} {accuracy : Accuracy} {u : ℚ}
    (hu : Holds (.ofMantissaAndAccuracy m accuracy) u) (he : 52 ≤ m.log2 ∨ e ≤ -1074) :
    Rounds (signed s (u * 2 ^ e)) (roundWithAccuracy double s m e accuracy) :=
  (roundsEven_roundWithAccuracy s hu he).rounds

theorem log2_shiftLeft {m : ℕ} (hm : m ≠ 0) (k : ℕ) : (m <<< k).log2 = m.log2 + k := by
  rw [Nat.shiftLeft_eq]
  exact (Nat.log2_eq_iff (by positivity)).2
    ⟨by rw [Nat.pow_add]; exact Nat.mul_le_mul_right _ (Nat.log2_self_le hm),
      by
        rw [show m.log2 + k + 1 = m.log2 + 1 + k by omega, Nat.pow_add]
        exact Nat.mul_lt_mul_of_pos_right Nat.lt_log2_self (by positivity)⟩

theorem rounds_round (s : Sign) {m : ℕ} (e : ℤ) (hm : m ≠ 0) :
    Rounds (signed s (m * 2 ^ e)) (UnpackedFloat.round double s m e) := by
  unfold UnpackedFloat.round decreaseExponent
  dsimp only
  rw [targetExponent_eq]
  set k : ℕ := (e - max (m.log2 + e - 52 : ℤ) (-1074)).toNat with hk
  have hv : (m : ℚ) * 2 ^ e = ((m <<< k : ℕ) : ℚ) * 2 ^ (e - (k : ℤ)) := by
    rw [Nat.shiftLeft_eq, zpow_sub₀ (by norm_num), zpow_natCast]
    push_cast
    field_simp
  rw [hv]
  exact rounds_roundWithAccuracy s rfl (by rw [log2_shiftLeft hm]; omega)

theorem roundsEven_zero (s : Sign) : RoundsEven 0 (.zero s) := by
  refine ⟨s, 0, -1074, by simp [ofUnits], by omega, by omega, ?_, .inl rfl, fun _ => rfl⟩
  cases s <;> norm_num [signed]

theorem rounds_zero (s : Sign) : Rounds 0 (.zero s) :=
  (roundsEven_zero s).rounds

/-- Adding up exactly and rounding afterwards. -/
theorem rounds_normalize (n e : ℤ) (zero : Sign) :
    Rounds (n * 2 ^ e) (normalize double n e zero) := by
  unfold UnpackedFloat.normalize
  rcases lt_trichotomy n 0 with hn | rfl | hn
  · rw [Int.compare_eq_lt.2 hn]
    have h := rounds_round .negative (m := (-n).toNat) e (by omega)
    rw [show (n : ℚ) * 2 ^ e = signed .negative (((-n).toNat : ℕ) * 2 ^ e) by
      rw [signed, ← neg_mul, ← Int.cast_natCast, Int.toNat_of_nonneg (by omega)]
      push_cast
      ring]
    exact h
  · rw [Int.compare_eq_eq.2 rfl, Int.cast_zero, zero_mul]
    exact rounds_zero zero
  · rw [Int.compare_eq_gt.2 hn]
    have h := rounds_round .positive (m := n.toNat) e (by omega)
    rw [show (n : ℚ) * 2 ^ e = signed .positive ((n.toNat : ℕ) * 2 ^ e) by
      rw [signed, ← Int.cast_natCast, Int.toNat_of_nonneg (by omega)]]
    exact h

/-- Parts that fit are the nearest to themselves. -/
theorem rounds_of_fits {f : UnpackedFloat} (h : Fits f) (hf : f.isFinite) :
    Rounds (value f) f := by
  cases f with
  | infinity s => cases hf
  | notANumber => cases hf
  | zero s => exact rounds_zero s
  | finite s m e hm =>
    obtain ⟨hu, hl, hn⟩ := h
    refine ⟨s, m, e, ?_, hu.le, hl, ?_, ?_⟩
    · rw [ofUnits, dif_neg (by omega), if_pos hu]
    · rw [value, ← signed_div, mul_div_cancel_right₀ _ (by positivity), sub_self, abs_zero]
      norm_num
    · rw [value, ← signed_div, mul_div_cancel_right₀ _ (by positivity), abs_signed, Nat.abs_cast]
      exact hn.symm.imp_right fun h => by exact_mod_cast h

namespace Rounds

variable {v : ℚ} {f : UnpackedFloat}

theorem fits (h : Rounds v f) : Fits f := by
  obtain ⟨s, r, t, rfl, hr, ht, hnear, hn⟩ := h
  refine fits_ofUnits ht (hn.imp_right fun hn => ?_)
  have hs := abs_abs_sub_abs_le (signed s r) (v / 2 ^ t)
  rw [abs_signed, Nat.abs_cast] at hs
  exact le_of_near (hs.trans hnear) (by exact_mod_cast hn)

/-- The error is at most half a unit in the last place, or half the least positive double. -/
theorem abs_value_sub_le (h : Rounds v f) : |value f - v| ≤ |v| / 2 ^ 53 + 2 ^ (-1075 : ℤ) := by
  obtain ⟨s, r, t, rfl, hr, ht, hnear, hn⟩ := h
  have h2 : (0 : ℚ) < 2 ^ t := by positivity
  have he : |value (ofUnits s r t) - v| ≤ 1 / 2 * 2 ^ t := by
    rw [value_ofUnits t hr, signed_mul]
    calc |signed s r * 2 ^ t - v| = |signed s r - v / 2 ^ t| * 2 ^ t := by
          rw [← abs_of_pos h2, ← abs_mul, abs_of_pos h2, sub_mul, div_mul_cancel₀ _ h2.ne']
      _ ≤ 1 / 2 * 2 ^ t := mul_le_mul_of_nonneg_right hnear h2.le
  have hv := abs_nonneg v
  rcases hn with rfl | hn
  · refine he.trans ?_
    have h3 : (1 : ℚ) / 2 * 2 ^ (-1074 : ℤ) = 2 ^ (-1075 : ℤ) := by
      rw [show (-1075 : ℤ) = -1074 - 1 by norm_num, zpow_sub_one₀ (by norm_num)]
      ring
    rw [h3]
    have : 0 ≤ |v| / 2 ^ 53 := by positivity
    linarith
  · rw [abs_div, abs_of_pos h2, le_div_iff₀ h2] at hn
    have h3 : (0 : ℚ) ≤ 2 ^ (-1075 : ℤ) := by positivity
    have h4 : (1 : ℚ) / 2 * 2 ^ t ≤ |v| / 2 ^ 53 := by
      rw [le_div_iff₀ (by positivity)]
      linarith
    linarith

theorem neg (h : Rounds v f) : Rounds (-v) f.neg := by
  obtain ⟨s, r, t, rfl, hr, ht, hnear, hn⟩ := h
  refine ⟨-s, r, t, ?_, hr, ht, ?_, ?_⟩
  · unfold ofUnits
    split
    · rfl
    · split <;> rfl
  · rw [neg_div, sub_neg_eq_add, signed_neg, ← abs_neg]
    rwa [neg_add, neg_neg, ← sub_eq_add_neg]
  · rwa [neg_div, abs_neg]

end Rounds

/-- A number that a double can stand for, leaving the largest exponent aside. -/
def IsDouble (w : ℚ) : Prop :=
  ∃ k j : ℤ, w = k * 2 ^ j ∧ |k| ≤ 0x20000000000000 ∧ -1074 ≤ j

theorem IsDouble.neg {w : ℚ} (h : IsDouble w) : IsDouble (-w) := by
  obtain ⟨k, j, rfl, hk, hj⟩ := h
  exact ⟨-k, j, by push_cast; ring, by rwa [abs_neg], hj⟩

theorem IsDouble.abs {w : ℚ} (h : IsDouble w) : IsDouble |w| := by
  rcases abs_choice w with he | he
  · rwa [he]
  · rw [he]
    exact h.neg

theorem value_neg (f : UnpackedFloat) : value f.neg = -value f := by
  cases f with
  | infinity s => simp [UnpackedFloat.neg, value]
  | notANumber => simp [UnpackedFloat.neg, value]
  | zero s => simp [UnpackedFloat.neg, value]
  | finite s m e hm => exact signed_neg s _

/-- **Between a number and a double above it is a whole number of units**, when the unit is that of a
double with the magnitude of the number. -/
theorem exists_units_between {v w : ℚ} {t : ℤ}
    (hn : t = -1074 ∨ 0x10000000000000 ≤ |v / 2 ^ t|) (hw : IsDouble w) (hvw : v ≤ w) :
    ∃ b : ℤ, v / 2 ^ t ≤ b ∧ (b : ℚ) ≤ w / 2 ^ t := by
  obtain ⟨k, j, rfl, hk, hj⟩ := hw
  have h2 : (0 : ℚ) < 2 ^ t := by positivity
  have hq : v / 2 ^ t ≤ k * 2 ^ j / 2 ^ t := div_le_div_of_nonneg_right hvw h2.le
  by_cases hjt : t ≤ j
  · obtain ⟨d, rfl⟩ := Int.le.dest hjt
    have he : (k : ℚ) * 2 ^ (t + d) / 2 ^ t = ((k * 2 ^ d : ℤ) : ℚ) := by
      rw [zpow_add₀ (by norm_num), zpow_natCast]
      push_cast
      field_simp
    exact ⟨k * 2 ^ d, he ▸ hq, he ▸ le_refl _⟩
  · have hn := hn.resolve_left (by omega)
    have hsmall : |(k : ℚ) * 2 ^ j / 2 ^ t| ≤ 0x10000000000000 := by
      rw [abs_div, abs_mul, abs_of_pos h2, abs_of_pos (by positivity : (0 : ℚ) < 2 ^ j),
        div_le_iff₀ h2]
      have hkq : |(k : ℚ)| ≤ 0x20000000000000 := by exact_mod_cast hk
      have hjq : (2 : ℚ) ^ j ≤ 2 ^ (t - 1) := zpow_le_zpow_right₀ (by norm_num) (by omega)
      rw [zpow_sub_one₀ (by norm_num)] at hjq
      calc |(k : ℚ)| * 2 ^ j ≤ 0x20000000000000 * (2 ^ t * 2⁻¹) :=
            mul_le_mul hkq hjq (by positivity) (by norm_num)
        _ = 0x10000000000000 * 2 ^ t := by ring
    obtain ⟨hl, hu⟩ := abs_le.1 hsmall
    rcases le_abs.1 hn with hp | hp
    · exact ⟨0x10000000000000, by push_cast; linarith, by push_cast; linarith⟩
    · exact ⟨-0x10000000000000, by push_cast; linarith, by push_cast; linarith⟩

theorem exists_signed_eq (s : Sign) (r : ℕ) : ∃ n : ℤ, signed s r = n := by
  cases s
  · exact ⟨-r, by simp [signed]⟩
  · exact ⟨r, by simp [signed]⟩

namespace Rounds

variable {v w : ℚ} {f : UnpackedFloat}

/-- **Rounding does not pass over a double.** -/
theorem value_le (h : Rounds v f) (hw : IsDouble w) (hvw : v ≤ w) : value f ≤ w := by
  obtain ⟨s, r, t, rfl, hr, ht, hnear, hn⟩ := h
  have h2 : (0 : ℚ) < 2 ^ t := by positivity
  rw [value_ofUnits t hr, signed_mul, ← le_div_iff₀ h2]
  obtain ⟨b, hvb, hbw⟩ := exists_units_between hn hw hvw
  obtain ⟨n, hsn⟩ := exists_signed_eq s r
  rw [hsn] at hnear ⊢
  have hnv := (abs_le.1 hnear).2
  have hlt : (n : ℚ) < ((b + 1 : ℤ) : ℚ) := by
    push_cast
    linarith
  refine le_trans ?_ hbw
  exact_mod_cast Int.lt_add_one_iff.1 (by exact_mod_cast hlt)

theorem le_value (h : Rounds v f) (hw : IsDouble w) (hvw : w ≤ v) : w ≤ value f := by
  have hle := h.neg.value_le hw.neg (by linarith)
  rw [value_neg] at hle
  linarith

theorem abs_value_le (h : Rounds v f) (hw : IsDouble w) (hvw : |v| ≤ w) : |value f| ≤ w := by
  obtain ⟨hl, hu⟩ := abs_le.1 hvw
  exact abs_le.2 ⟨h.le_value hw.neg hl, h.value_le hw hu⟩

/-- A number that is a double is rounded to itself. -/
theorem value_eq (h : Rounds v f) (hv : IsDouble v) : value f = v :=
  le_antisymm (h.value_le hv (le_refl _)) (h.le_value hv (le_refl _))

end Rounds

end QueryForecast.Numeric
