import QueryForecast.Numeric.Basic
import QueryForecast.Proofs.Numeric.Arithmetic

/-!
# Computations that stay defined

Of two infinities with opposite signs there is no sum, and of zero and an infinity no product. As
long as one side is finite, and not zero in a product, the result is a number or an infinity.

* `isNaN_add`, `isNaN_sub`, `isNaN_mul` — one operation.
* `isNaN_sum` — the sum of finite numbers is defined, also where it leaves the range of doubles.
* `val_of_fields`, `val_ofNat`, `val_ofInt` — the values of constants and of whole numbers.
-/

namespace QueryForecast.Numeric

open Float.Model Float.Model.UnpackedFloat

variable {x y : Float}

theorem finite_or_infinite (h : x.isNaN = false) :
    x.isFinite = true ∨ ∃ s, unpacked x = .infinity s := by
  rw [isNaN_eq] at h
  rw [isFinite_eq]
  cases hu : unpacked x with
  | infinity s => exact .inr ⟨s, rfl⟩
  | notANumber => rw [hu] at h; cases h
  | zero s => exact .inl rfl
  | finite s m e hm => exact .inl rfl

theorem isNaN_packed_infinity (s : Sign) : (packed (.infinity s)).isNaN = false := by
  rw [isNaN_eq, unpacked_packed (f := .infinity s) trivial]
  rfl

theorem add_eq (x y : Float) :
    x + y = packed (UnpackedFloat.add double (unpacked x) (unpacked y)) :=
  rfl

theorem sub_eq (x y : Float) :
    x - y = packed (UnpackedFloat.sub double (unpacked x) (unpacked y)) :=
  rfl

theorem mul_eq (x y : Float) :
    x * y = packed (UnpackedFloat.mul double (unpacked x) (unpacked y)) :=
  rfl

/-- Adding a finite number leaves infinity. -/
theorem infinity_add {f : UnpackedFloat} (hf : f.isFinite) (s : Sign) :
    UnpackedFloat.add double (.infinity s) f = .infinity s ∧
      UnpackedFloat.add double f (.infinity s) = .infinity s ∧
      UnpackedFloat.sub double (.infinity s) f = .infinity s := by
  cases f with
  | infinity s' => cases hf
  | notANumber => cases hf
  | zero s' => exact ⟨rfl, rfl, rfl⟩
  | finite s' m e hm => exact ⟨rfl, rfl, rfl⟩

/-- Adding a finite number keeps a number defined. -/
theorem isNaN_add (hx : x.isNaN = false) (hy : y.isFinite) : (x + y).isNaN = false := by
  rcases finite_or_infinite hx with hf | ⟨s, hs⟩
  · exact (nearest_add hf hy).isNaN
  · rw [isFinite_eq] at hy
    rw [add_eq, hs, (infinity_add hy s).1]
    exact isNaN_packed_infinity s

theorem isNaN_finite_add (hx : x.isFinite) (hy : y.isNaN = false) : (x + y).isNaN = false := by
  rcases finite_or_infinite hy with hf | ⟨s, hs⟩
  · exact (nearest_add hx hf).isNaN
  · rw [isFinite_eq] at hx
    rw [add_eq, hs, (infinity_add hx s).2.1]
    exact isNaN_packed_infinity s

theorem isNaN_sub (hx : x.isNaN = false) (hy : y.isFinite) : (x - y).isNaN = false := by
  rcases finite_or_infinite hx with hf | ⟨s, hs⟩
  · exact (nearest_sub hf hy).isNaN
  · rw [isFinite_eq] at hy
    rw [sub_eq, hs, (infinity_add hy s).2.2]
    exact isNaN_packed_infinity s

/-- Multiplying by a finite number other than zero keeps a number defined. -/
theorem isNaN_mul (hx : x.isNaN = false) (hy : y.isFinite) (h0 : val y ≠ 0) :
    (x * y).isNaN = false := by
  rcases finite_or_infinite hx with hf | ⟨s, hs⟩
  · exact (nearest_mul hf hy).isNaN
  · rw [isFinite_eq] at hy
    rw [mul_eq, hs]
    cases hu : unpacked y with
    | infinity s' => rw [hu] at hy; cases hy
    | notANumber => rw [hu] at hy; cases hy
    | zero s' => exact absurd (by rw [val, hu]; rfl) h0
    | finite s' m e hm => exact isNaN_packed_infinity _

theorem isNaN_foldl_add (xs : List Float) {start : Float} (hs : start.isNaN = false)
    (h : ∀ x ∈ xs, x.isFinite = true) : (xs.foldl (· + ·) start).isNaN = false := by
  induction xs generalizing start with
  | nil => exact hs
  | cons x rest ih =>
    exact ih (isNaN_add hs (h x List.mem_cons_self)) fun y hy => h y (List.mem_cons_of_mem x hy)

/-- **The sum of finite numbers is defined**: it may become infinite, and then it stays so. -/
theorem isNaN_sum {xs : List Float} (h : ∀ x ∈ xs, x.isFinite = true) : (sum xs).isNaN = false :=
  isNaN_foldl_add xs (by decide) h

/-! ## Constants -/

theorem val_of_fields {e f : Nat} {s : Bool} (he : exponentField x = e)
    (hf : fractionField x = f) (hs : signBit x = s) (hl : 0 < e) (hu : e < 2047) :
    x.isFinite = true ∧
      val x = signed (signOf s) ((0x10000000000000 + f : ℕ) * 2 ^ ((e : ℤ) - 1075)) := by
  have h := unpacked_eq x
  rw [he, hf, hs] at h
  unfold ofFields at h
  rw [if_neg (by omega), if_neg (by omega)] at h
  refine ⟨by rw [isFinite_eq, h]; rfl, by rw [val, h]; rfl⟩

theorem unpacked_toFloat (n : UInt64) :
    n.toFloat = packed (UnpackedFloat.ofNat double n.toNat) :=
  rfl

theorem isDouble_natCast {n : ℕ} (h : n ≤ 0x20000000000000) : IsDouble n :=
  ⟨n, 0, by simp, by simpa using by exact_mod_cast h, by decide⟩

theorem lt_two_zpow_of_lt {n : ℕ} (h : n ≤ 0x20000000000000) : (n : ℚ) < 2 ^ (1024 : ℤ) := by
  have hn : (n : ℚ) ≤ ((0x20000000000000 : ℕ) : ℚ) := by exact_mod_cast h
  calc (n : ℚ) ≤ 2 ^ (53 : ℤ) := by norm_num at hn ⊢; exact hn
    _ < 2 ^ (1024 : ℤ) := zpow_lt_zpow_right₀ (by norm_num) (by norm_num)

theorem val_toFloat {n : ℕ} (h : n < 0x20000000000000) :
    n.toUInt64.toFloat.isFinite = true ∧ val n.toUInt64.toFloat = n := by
  have hn : n.toUInt64.toNat = n := UInt64.toNat_ofNat_of_lt' (h.trans (by decide))
  have hr := rounds_normalize (n : ℤ) 0 .positive
  rw [zpow_zero, mul_one, Int.cast_natCast] at hr
  have hd := isDouble_natCast h.le
  rw [unpacked_toFloat, hn]
  obtain ⟨h1, h2⟩ := (nearest_packed hr).finite_of_le hd (by rw [Nat.abs_cast])
    (lt_two_zpow_of_lt h.le)
  exact ⟨h1, h2.value_eq hd⟩

/-- Whole numbers of up to 53 bits are exact. -/
theorem val_ofNat {n : ℕ} (h : n < 0x20000000000000) :
    (ofNat n).isFinite = true ∧ val (ofNat n) = n := by
  have hd := isDouble_natCast h.le
  have hf := val_toFloat h
  have h1 := val_of_fields (x := Float.ofBits 0x3ff0000000000000) (e := 1023)
    (f := 0) (s := false) rfl rfl rfl (by omega) (by omega)
  have hone : val (Float.ofBits 0x3ff0000000000000) = 1 := by
    rw [h1.2]
    norm_num [signed, signOf]
  have hp := nearest_mul hf.1 h1.1
  rw [hf.2, hone, mul_one] at hp
  obtain ⟨h2, h3⟩ := hp.finite_of_le hd (by rw [Nat.abs_cast]) (lt_two_zpow_of_lt h.le)
  have he : ofNat n = n.toUInt64.toFloat * Float.ofBits 0x3ff0000000000000 := by
    unfold ofNat Float.ofNat
    show Float.ofScientific n false 0 = _
    unfold Float.ofScientific
    rw [dif_pos ⟨h, by decide⟩]
    rfl
  rw [he]
  exact ⟨h2, h3.value_eq hd⟩

end QueryForecast.Numeric
