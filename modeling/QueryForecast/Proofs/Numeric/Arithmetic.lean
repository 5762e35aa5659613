import QueryForecast.Proofs.Numeric.Rounding

/-!
# Arithmetic on doubles, by their values

* `val` — the number that a finite double stands for.
* `Nearest` — a double is the rounded result of an exact computation, or infinite when that is past
  the range of doubles; `NearestEven` — the even one of two that are equally near.
* `Nearest.rounds` — within the range the result is finite, with the error bound of `Rounds`.
* `nearest_add`, `nearest_sub`, `nearest_mul`, `nearest_div` — the operations on finite doubles.
* `lt_iff_val_lt`, `le_iff_val_le` — finite doubles compare as the numbers that they stand for.
-/

namespace QueryForecast.Numeric

open Float.Model Float.Model.UnpackedFloat

/-- The number that a finite double stands for; zero for others. -/
def val (x : Float) : ℚ :=
  value (unpacked x)

theorem isFinite_eq (x : Float) : x.isFinite = (unpacked x).isFinite :=
  rfl

theorem isNaN_eq (x : Float) : x.isNaN = (unpacked x).isNaN :=
  rfl

/-! ## The range -/

theorem settled_of_abs_value_lt {f : UnpackedFloat} (h : Fits f)
    (hv : |value f| < 2 ^ (1024 : ℤ)) : settled f = f := by
  cases f with
  | infinity s => rfl
  | notANumber => rfl
  | zero s => rfl
  | finite s m e hm =>
    obtain ⟨-, -, hn⟩ := h
    rw [settled, if_neg]
    intro he
    have hm52 : ((0x10000000000000 : ℕ) : ℚ) ≤ m := by exact_mod_cast hn.resolve_right (by omega)
    have he2 : (2 : ℚ) ^ (972 : ℤ) ≤ 2 ^ e := zpow_le_zpow_right₀ (by norm_num) (by omega)
    rw [value, abs_signed, abs_of_nonneg (by positivity)] at hv
    have hlow : (2 : ℚ) ^ (1024 : ℤ) ≤ m * 2 ^ e := by
      calc (2 : ℚ) ^ (1024 : ℤ) = 2 ^ (52 : ℤ) * 2 ^ (972 : ℤ) := by
            rw [← zpow_add₀ (by norm_num)]
            norm_num
        _ ≤ m * 2 ^ e := mul_le_mul (by push_cast at hm52; linarith) he2 (by positivity)
            (by positivity)
    linarith

theorem isDouble_value {f : UnpackedFloat} (h : Fits f) : IsDouble (value f) := by
  cases f with
  | infinity s => exact ⟨0, 0, by simp [value], by simp, by omega⟩
  | notANumber => exact ⟨0, 0, by simp [value], by simp, by omega⟩
  | zero s => exact ⟨0, 0, by simp [value], by simp, by omega⟩
  | finite s m e hm =>
    obtain ⟨hu, hl, -⟩ := h
    cases s with
    | negative => exact ⟨-m, e, by simp [value, signed], by simp; omega, hl⟩
    | positive => exact ⟨m, e, by simp [value, signed], by simp; omega, hl⟩

theorem isDouble_val (x : Float) : IsDouble (val x) :=
  isDouble_value (fits_unpacked x)

theorem abs_val_lt (x : Float) : |val x| < 2 ^ (1024 : ℤ) := by
  have hf := fits_unpacked x
  have hs := settled_unpacked x
  unfold val
  cases hu : unpacked x with
  | infinity s => simp [value]
  | notANumber => simp [value]
  | zero s => simp [value]
  | finite s m e hm =>
    rw [hu] at hf hs
    obtain ⟨hm53, -, -⟩ := hf
    have he : e ≤ 971 := by
      by_contra h
      rw [settled, if_pos (by omega)] at hs
      cases hs
    have he2 : (2 : ℚ) ^ e ≤ 2 ^ (971 : ℤ) := zpow_le_zpow_right₀ (by norm_num) he
    have hmq : (m : ℚ) < ((0x20000000000000 : ℕ) : ℚ) := by exact_mod_cast hm53
    rw [value, abs_signed, abs_of_nonneg (by positivity)]
    calc (m : ℚ) * 2 ^ e < 2 ^ (53 : ℤ) * 2 ^ e :=
          mul_lt_mul_of_pos_right (by push_cast at hmq; linarith) (by positivity)
      _ ≤ 2 ^ (53 : ℤ) * 2 ^ (971 : ℤ) := mul_le_mul_of_nonneg_left he2 (by positivity)
      _ = 2 ^ (1024 : ℤ) := by
        rw [← zpow_add₀ (by norm_num)]
        norm_num

/-! ## Rounded results -/

/-- A double is a rounded number, or infinite when that is past the range of doubles. -/
def Nearest (v : ℚ) (z : Float) : Prop :=
  ∃ f, Rounds v f ∧ unpacked z = settled f

theorem nearest_packed {v : ℚ} {f : UnpackedFloat} (h : Rounds v f) : Nearest v (packed f) :=
  ⟨f, h, unpacked_packed h.fits⟩

/-- A double is a number rounded to even, or infinite when that is past the range of doubles. -/
def NearestEven (v : ℚ) (z : Float) : Prop :=
  ∃ f, RoundsEven v f ∧ unpacked z = settled f

theorem nearestEven_packed {v : ℚ} {f : UnpackedFloat} (h : RoundsEven v f) :
    NearestEven v (packed f) :=
  ⟨f, h, unpacked_packed h.rounds.fits⟩

theorem NearestEven.nearest {v : ℚ} {z : Float} (h : NearestEven v z) : Nearest v z := by
  obtain ⟨f, hf, hz⟩ := h
  exact ⟨f, hf.rounds, hz⟩

namespace Nearest

variable {v w : ℚ} {z : Float}

theorem isNaN (h : Nearest v z) : z.isNaN = false := by
  obtain ⟨f, ⟨s, r, t, rfl, -⟩, hz⟩ := h
  rw [isNaN_eq, hz]
  unfold ofUnits
  split
  · rfl
  · split
    · unfold settled
      dsimp only
      split <;> rfl
    · unfold settled
      dsimp only
      split <;> rfl

/-- **A result within the range of doubles is finite.** -/
theorem finite_of_le (h : Nearest v z) (hw : IsDouble w) (hv : |v| ≤ w)
    (hr : w < 2 ^ (1024 : ℤ)) : z.isFinite = true ∧ Rounds v (unpacked z) := by
  obtain ⟨f, hf, hz⟩ := h
  have hle := hf.abs_value_le hw hv
  rw [settled_of_abs_value_lt hf.fits (hle.trans_lt hr)] at hz
  refine ⟨?_, hz ▸ hf⟩
  obtain ⟨s, r, t, rfl, -⟩ := hf
  rw [isFinite_eq, hz]
  unfold ofUnits
  split
  · rfl
  · split <;> rfl

theorem rounds (h : Nearest v z) (hv : |v| ≤ 2 ^ (1023 : ℤ)) :
    z.isFinite = true ∧ Rounds v (unpacked z) :=
  h.finite_of_le ⟨1, 1023, by simp, by decide, by decide⟩ hv
    (zpow_lt_zpow_right₀ (by norm_num) (by norm_num))

end Nearest

/-! ## Operations on parts -/

theorem value_decreaseExponent (m : ℕ) {e t : ℤ} (h : t ≤ e) :
    ((decreaseExponent m e t).1 : ℚ) * 2 ^ t = m * 2 ^ e := by
  obtain ⟨d, rfl⟩ := Int.le.dest h
  unfold decreaseExponent
  dsimp only
  rw [show (t + d - t : ℤ).toNat = d by omega, Nat.shiftLeft_eq, zpow_add₀ (by norm_num),
    zpow_natCast]
  push_cast
  ring

theorem cast_apply (s : Sign) (n : ℕ) : ((s.apply n : ℤ) : ℚ) = signed s n := by
  cases s <;> simp [Sign.apply, signed]

theorem signed_decreaseExponent (s : Sign) (m : ℕ) {e t : ℤ} (h : t ≤ e) :
    ((s.apply ((decreaseExponent m e t).1 : ℕ) : ℤ) : ℚ) * 2 ^ t = signed s (m * 2 ^ e) := by
  rw [cast_apply, ← signed_mul, value_decreaseExponent m h]

theorem rounds_add {f g : UnpackedFloat} (hf : Fits f) (hg : Fits g) (hf' : f.isFinite)
    (hg' : g.isFinite) : Rounds (value f + value g) (UnpackedFloat.add double f g) := by
  cases f with
  | infinity s => cases hf'
  | notANumber => cases hf'
  | zero s =>
    cases g with
    | infinity s' => cases hg'
    | notANumber => cases hg'
    | zero s' =>
      rw [show value (.zero s) + value (.zero s') = 0 by simp [value]]
      cases s <;> cases s' <;> exact rounds_zero _
    | finite s' n d hn =>
      rw [show value (.zero s) + value (.finite s' n d hn) = value (.finite s' n d hn) by
        simp [value]]
      exact rounds_of_fits hg rfl
  | finite s m e hm =>
    cases g with
    | infinity s' => cases hg'
    | notANumber => cases hg'
    | zero s' =>
      rw [show value (.finite s m e hm) + value (.zero s') = value (.finite s m e hm) by
        simp [value]]
      exact rounds_of_fits hf rfl
    | finite s' n d hn =>
      have h := rounds_normalize
        (s.apply ((decreaseExponent m e (min e d)).1 : ℕ) +
          s'.apply ((decreaseExponent n d (min e d)).1 : ℕ)) (min e d) .positive
      rw [Int.cast_add, add_mul, signed_decreaseExponent s m (min_le_left e d),
        signed_decreaseExponent s' n (min_le_right e d)] at h
      exact h

theorem sub_eq_add {f g : UnpackedFloat} (hf : f.isFinite) (hg : g.isFinite) :
    UnpackedFloat.sub double f g = UnpackedFloat.add double f g.neg := by
  cases f with
  | infinity s => cases hf
  | notANumber => cases hf
  | zero s =>
    cases g with
    | infinity s' => cases hg
    | notANumber => cases hg
    | zero s' => rfl
    | finite s' n d hn => rfl
  | finite s m e hm =>
    cases g with
    | infinity s' => cases hg
    | notANumber => cases hg
    | zero s' => rfl
    | finite s' n d hn =>
      cases s'
      · show normalize _ (_ - -_) _ _ = normalize _ (_ + _) _ _
        rw [Int.sub_neg]
        rfl
      · rfl

theorem fits_neg {f : UnpackedFloat} (h : Fits f) : Fits f.neg := by
  cases f <;> exact h

theorem isFinite_neg (f : UnpackedFloat) : f.neg.isFinite = f.isFinite := by
  cases f <;> rfl

theorem rounds_sub {f g : UnpackedFloat} (hf : Fits f) (hg : Fits g) (hf' : f.isFinite)
    (hg' : g.isFinite) : Rounds (value f - value g) (UnpackedFloat.sub double f g) := by
  rw [sub_eq_add hf' hg', sub_eq_add_neg, ← value_neg]
  exact rounds_add hf (fits_neg hg) hf' (by rwa [isFinite_neg])

theorem signed_mul_signed (s t : Sign) (a b : ℚ) :
    signed s a * signed t b = signed (s * t) (a * b) := by
  cases s <;> cases t
  · exact neg_mul_neg a b
  · exact neg_mul a b
  · exact mul_neg a b
  · rfl

theorem signed_div_signed (s t : Sign) (a b : ℚ) :
    signed s a / signed t b = signed (s / t) (a / b) := by
  cases s <;> cases t
  · exact neg_div_neg_eq a b
  · exact neg_div b a
  · exact div_neg a
  · rfl

theorem value_mul_value {s s' : Sign} {m n : ℕ} {e d : ℤ} {hm : 0 < m} {hn : 0 < n} :
    value (.finite s m e hm) * value (.finite s' n d hn) =
      signed (s * s') (((m * n : ℕ) : ℚ) * 2 ^ (e + d)) := by
  rw [value, value, signed_mul_signed, zpow_add₀ (by norm_num)]
  push_cast
  congr 1
  ring

/-- A product has at least 53 bits, unless its exponent is below that of all doubles: a factor with
fewer bits has the least exponent. -/
theorem log2_mul_of_fits {s s' : Sign} {m n : ℕ} {e d : ℤ} {hm : 0 < m} {hn : 0 < n}
    (hf : Fits (.finite s m e hm)) (hg : Fits (.finite s' n d hn)) :
    52 ≤ (m * n).log2 ∨ e + d ≤ -1074 := by
  by_cases h : 0x10000000000000 ≤ m * n
  · exact .inl ((Nat.le_log2 (by positivity)).2 h)
  · have hm' : ¬ 0x10000000000000 ≤ m := fun hc => h (hc.trans (Nat.le_mul_of_pos_right m hn))
    have hn' : ¬ 0x10000000000000 ≤ n := fun hc => h (hc.trans (Nat.le_mul_of_pos_left n hm))
    have he := hf.2.2.resolve_left hm'
    have hd := hg.2.2.resolve_left hn'
    omega

theorem roundsEven_mul {f g : UnpackedFloat} (hf : Fits f) (hg : Fits g) (hf' : f.isFinite)
    (hg' : g.isFinite) : RoundsEven (value f * value g) (UnpackedFloat.mul double f g) := by
  cases f with
  | infinity s => cases hf'
  | notANumber => cases hf'
  | zero s =>
    rw [show value (.zero s) * value g = 0 by simp [value]]
    cases g with
    | infinity s' => cases hg'
    | notANumber => cases hg'
    | zero s' => exact roundsEven_zero _
    | finite s' n d hn => exact roundsEven_zero _
  | finite s m e hm =>
    cases g with
    | infinity s' => cases hg'
    | notANumber => cases hg'
    | zero s' =>
      rw [show value (.finite s m e hm) * value (.zero s') = 0 by simp [value]]
      exact roundsEven_zero _
    | finite s' n d hn =>
      rw [value_mul_value]
      exact roundsEven_roundWithAccuracy (s * s')
        (show Holds (.ofMantissaAndAccuracy (m * n) .exact) (m * n : ℕ) from rfl)
        (log2_mul_of_fits hf hg)

/-- The remembered bits of a quotient. -/
theorem holds_accuracyOfFraction (m : ℕ) {n : ℕ} (hn : 0 < n) :
    Holds (.ofMantissaAndAccuracy (m / n) (accuracyOfFraction (m % n) n)) (m / n) := by
  have hn' : (0 : ℚ) < n := by exact_mod_cast hn
  have hd : (m : ℚ) = (m / n : ℕ) * n + (m % n : ℕ) := by
    exact_mod_cast (Nat.div_add_mod' m n).symm
  have hq : (m : ℚ) / n = (m / n : ℕ) + (m % n : ℕ) / n := by
    rw [div_eq_iff hn'.ne', add_mul, div_mul_cancel₀ _ hn'.ne']
    exact hd
  have hlt : ((m % n : ℕ) : ℚ) < n := by exact_mod_cast Nat.mod_lt m hn
  have hlt1 : ((m % n : ℕ) : ℚ) / n < 1 := (div_lt_one hn').2 hlt
  rw [hq]
  unfold accuracyOfFraction
  split
  · rename_i h0
    rw [h0]
    simp [ExtendedMantissa.ofMantissaAndAccuracy, Holds]
  · rename_i h0
    have hpos : (0 : ℚ) < ((m % n : ℕ) : ℚ) / n :=
      div_pos (by exact_mod_cast Nat.pos_of_ne_zero h0) hn'
    rcases lt_trichotomy (2 * (m % n)) n with hc | hc | hc
    · have hhalf : ((m % n : ℕ) : ℚ) / n < 1 / 2 := by
        rw [div_lt_iff₀ hn']
        have : ((2 * (m % n) : ℕ) : ℚ) < n := by exact_mod_cast hc
        push_cast at this ⊢
        linarith
      rw [Nat.compare_eq_lt.2 hc]
      exact ⟨by linarith, by linarith⟩
    · have hhalf : ((m % n : ℕ) : ℚ) / n = 1 / 2 := by
        rw [div_eq_iff hn'.ne']
        have : ((2 * (m % n) : ℕ) : ℚ) = n := by exact_mod_cast hc
        push_cast at this ⊢
        linarith
      rw [Nat.compare_eq_eq.2 hc]
      show _ + _ = _ + _
      rw [hhalf]
    · have hhalf : 1 / 2 < ((m % n : ℕ) : ℚ) / n := by
        rw [lt_div_iff₀ hn']
        have : (n : ℚ) < ((2 * (m % n) : ℕ) : ℚ) := by exact_mod_cast hc
        push_cast at this ⊢
        linarith
      rw [Nat.compare_eq_gt.2 hc]
      exact ⟨by linarith, by linarith⟩

/-- A quotient has at least 53 bits when its numerator was shifted far enough. -/
theorem two_pow_le_shiftLeft_div {m n k : ℕ} (hm : 0 < m) (hn : 0 < n)
    (h : 52 + (n.log2 + 1) ≤ m.log2 + k) : 2 ^ 52 ≤ m <<< k / n := by
  rw [Nat.le_div_iff_mul_le hn, Nat.shiftLeft_eq]
  calc 2 ^ 52 * n ≤ 2 ^ 52 * 2 ^ (n.log2 + 1) := Nat.mul_le_mul_left _ Nat.lt_log2_self.le
    _ = 2 ^ (52 + (n.log2 + 1)) := (Nat.pow_add ..).symm
    _ ≤ 2 ^ (m.log2 + k) := Nat.pow_le_pow_right (by omega) h
    _ = 2 ^ m.log2 * 2 ^ k := Nat.pow_add ..
    _ ≤ m * 2 ^ k := Nat.mul_le_mul_right _ (Nat.log2_self_le hm.ne')

/-- A quotient of values, in terms of the shifted numerator. -/
theorem value_div_value_eq_shiftLeft {s s' : Sign} {m n : ℕ} {e d : ℤ} {hm : 0 < m} {hn : 0 < n}
    {k : ℕ} {t : ℤ} (h : e = t + k + d) :
    value (.finite s m e hm) / value (.finite s' n d hn) =
      signed (s / s') (((m <<< k : ℕ) : ℚ) / n * 2 ^ t) := by
  have hn' : (n : ℚ) ≠ 0 := by exact_mod_cast hn.ne'
  rw [value, value, signed_div_signed, Nat.shiftLeft_eq, h, zpow_add₀ (by norm_num),
    zpow_add₀ (by norm_num), zpow_natCast]
  push_cast
  congr 1
  field_simp

/-- The exponent that a quotient is computed for. -/
theorem targetExponent_div (m n : ℕ) (e d : ℤ) :
    double.targetExponent (totalExponent m e - totalExponent n d) =
      max (m.log2 + e - (n.log2 + d) - 53 : ℤ) (-1074) := by
  rw [targetExponent_eq_max, totalExponent, totalExponent]
  congr 1
  omega

theorem roundsEven_div {f g : UnpackedFloat} (hf' : f.isFinite) (hg' : g.isFinite)
    (h0 : value g ≠ 0) : RoundsEven (value f / value g) (UnpackedFloat.div double f g) := by
  cases g with
  | infinity s' => cases hg'
  | notANumber => cases hg'
  | zero s' => exact absurd rfl h0
  | finite s' n d hn =>
    cases f with
    | infinity s => cases hf'
    | notANumber => cases hf'
    | zero s =>
      rw [show value (.zero s) / value (.finite s' n d hn) = 0 by simp [value]]
      exact roundsEven_zero _
    | finite s m e hm =>
      show RoundsEven _ (roundWithAccuracy double (s / s') _ _ _)
      rw [targetExponent_div]
      set t : ℤ := min (e - d) (max (m.log2 + e - (n.log2 + d) - 53 : ℤ) (-1074)) with ht
      set k : ℕ := (e - d - t).toNat with hk
      rw [value_div_value_eq_shiftLeft (show e = t + k + d by omega)]
      refine roundsEven_roundWithAccuracy _ (holds_accuracyOfFraction _ hn) ?_
      by_cases htm : t ≤ -1074
      · exact .inr htm
      · have hq := two_pow_le_shiftLeft_div (k := k) hm hn (by omega)
        exact .inl ((Nat.le_log2 (by omega)).2 hq)

/-! ## Operations on doubles -/

section

variable {x y : Float}

theorem nearest_add (hx : x.isFinite) (hy : y.isFinite) : Nearest (val x + val y) (x + y) :=
  nearest_packed (rounds_add (fits_unpacked x) (fits_unpacked y) hx hy)

theorem nearest_sub (hx : x.isFinite) (hy : y.isFinite) : Nearest (val x - val y) (x - y) :=
  nearest_packed (rounds_sub (fits_unpacked x) (fits_unpacked y) hx hy)

theorem nearestEven_mul (hx : x.isFinite) (hy : y.isFinite) :
    NearestEven (val x * val y) (x * y) :=
  nearestEven_packed (roundsEven_mul (fits_unpacked x) (fits_unpacked y) hx hy)

theorem nearest_mul (hx : x.isFinite) (hy : y.isFinite) : Nearest (val x * val y) (x * y) :=
  (nearestEven_mul hx hy).nearest

theorem nearestEven_div (hx : x.isFinite) (hy : y.isFinite) (h0 : val y ≠ 0) :
    NearestEven (val x / val y) (x / y) :=
  nearestEven_packed (roundsEven_div hx hy h0)

theorem nearest_div (hx : x.isFinite) (hy : y.isFinite) (h0 : val y ≠ 0) :
    Nearest (val x / val y) (x / y) :=
  (nearestEven_div hx hy h0).nearest

theorem settled_neg (f : UnpackedFloat) : settled f.neg = (settled f).neg := by
  cases f with
  | infinity s => rfl
  | notANumber => rfl
  | zero s => rfl
  | finite s m e hm =>
    unfold settled UnpackedFloat.neg
    dsimp only
    split <;> rfl

theorem unpacked_neg (x : Float) : unpacked (-x) = (unpacked x).neg := by
  have h := unpacked_packed (fits_neg (fits_unpacked x))
  have hs := settled_unpacked x
  rw [settled_neg, hs] at h
  exact h

theorem Nearest.neg {v : ℚ} {z : Float} (h : Nearest v z) : Nearest (-v) (-z) := by
  obtain ⟨f, hf, hz⟩ := h
  exact ⟨f.neg, hf.neg, by rw [unpacked_neg, hz, settled_neg]⟩

theorem isFinite_neg_eq (x : Float) : (-x).isFinite = x.isFinite := by
  rw [isFinite_eq, unpacked_neg, isFinite_neg]
  rfl

theorem val_neg (x : Float) : val (-x) = -val x := by
  unfold val
  rw [unpacked_neg, value_neg]

theorem unpacked_abs (x : Float) : unpacked x.abs = (unpacked x).abs := by
  have hf := fits_unpacked x
  have hs := settled_unpacked x
  have h : Fits (unpacked x).abs := by
    cases hu : unpacked x <;> rw [hu] at hf <;> exact hf
  refine (unpacked_packed h).trans ?_
  cases hu : unpacked x with
  | infinity s => rfl
  | notANumber => rfl
  | zero s => rfl
  | finite s m e hm =>
    rw [hu] at hs
    unfold settled UnpackedFloat.abs at *
    dsimp only at hs ⊢
    split at hs
    · cases hs
    · rename_i he
      rw [if_neg he]

theorem isFinite_abs (x : Float) : x.abs.isFinite = x.isFinite := by
  rw [isFinite_eq, unpacked_abs, isFinite_eq]
  cases unpacked x <;> rfl

theorem val_abs (x : Float) : val x.abs = |val x| := by
  unfold val
  rw [unpacked_abs]
  cases unpacked x with
  | infinity s => exact abs_zero.symm
  | notANumber => exact abs_zero.symm
  | zero s => exact abs_zero.symm
  | finite s m e hm =>
    rw [value, abs_signed, abs_of_nonneg (by positivity)]
    rfl

theorem isNaN_of_isFinite (h : x.isFinite) : x.isNaN = false := by
  rw [isFinite_eq] at h
  rw [isNaN_eq]
  cases hu : unpacked x <;> rw [hu] at h <;> first | rfl | cases h

theorem isInf_of_isFinite (h : x.isFinite) : x.isInf = false := by
  rw [isFinite_eq] at h
  show (unpacked x).isInf = false
  cases hu : unpacked x <;> rw [hu] at h <;> first | rfl | cases h

end

end QueryForecast.Numeric
