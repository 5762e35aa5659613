import QueryForecast.Proofs.Numeric.Arithmetic

/-!
# The numbers that are rounded to a double

Around a double lie the numbers nearer to it than to any other, up to half the gap to its neighbours.
The gap below a power of two is half as wide as the one above. A bound itself is as near to the
neighbour, and is rounded to the even one of the two.

* `eq_of_unpacked_eq` — a finite double is known by its parts.
* `Around` — a number lies around some parts.
* `RoundsEven.eq_finite`, `NearestEven.eq_of_around` — what lies around some parts is rounded to them.
-/

namespace QueryForecast.Numeric

open Float.Model Float.Model.UnpackedFloat

/-! ## Parts of a double -/

theorem signOf_injective {a b : Bool} (h : signOf a = signOf b) : a = b := by
  cases a <;> cases b <;> first | rfl | cases h

/-- The parts of a finite double: zero, or a fraction without or with its leading bit. -/
theorem ofFields_cases {s : Sign} {e m : ℕ} (h : (ofFields s e m).isFinite = true) :
    (e = 0 ∧ m = 0 ∧ ofFields s e m = .zero s) ∨
    (e = 0 ∧ ∃ hm, ofFields s e m = .finite s m (-1074) hm) ∨
    (0 < e ∧ ∃ hm, ofFields s e m = .finite s (0x10000000000000 + m) (e - 1075) hm) := by
  unfold ofFields at h ⊢
  by_cases h1 : e = 2047
  · rw [if_pos h1] at h
    split at h <;> cases h
  · rw [if_neg h1]
    by_cases h2 : e = 0
    · rw [if_pos h2]
      by_cases h3 : m = 0
      · exact .inl ⟨h2, h3, dif_pos h3⟩
      · exact .inr (.inl ⟨h2, Nat.pos_of_ne_zero h3, dif_neg h3⟩)
    · rw [if_neg h2]
      exact .inr (.inr ⟨Nat.pos_of_ne_zero h2, by omega, rfl⟩)

/-- The fields of a finite double are known by its parts. -/
theorem fields_eq_of_ofFields_eq {s s' : Sign} {e e' m m' : ℕ} (hm : m < 0x10000000000000)
    (hm' : m' < 0x10000000000000) (hf : (ofFields s e m).isFinite = true)
    (h : ofFields s e m = ofFields s' e' m') : s = s' ∧ e = e' ∧ m = m' := by
  have hf' := h ▸ hf
  rcases ofFields_cases hf with ⟨he, h0, hx⟩ | ⟨he, _, hx⟩ | ⟨he, _, hx⟩ <;>
    rcases ofFields_cases hf' with ⟨he', h0', hy⟩ | ⟨he', _, hy⟩ | ⟨he', _, hy⟩ <;>
    simp only [hx, hy, UnpackedFloat.zero.injEq, UnpackedFloat.finite.injEq, reduceCtorEq] at h
  · exact ⟨h, by omega, by omega⟩
  · exact ⟨h.1, by omega, h.2.1⟩
  · omega
  · omega
  · exact ⟨h.1, by omega, by omega⟩

/-- **A finite double is known by its parts.** -/
theorem eq_of_unpacked_eq {x y : Float} (hx : x.isFinite = true) (h : unpacked x = unpacked y) :
    x = y := by
  have hf := hx
  rw [isFinite_eq, unpacked_eq] at hf
  rw [unpacked_eq, unpacked_eq] at h
  obtain ⟨hs, he, hm⟩ := fields_eq_of_ofFields_eq (fractionField_lt x) (fractionField_lt y) hf h
  have hs := signOf_injective hs
  have hxb := x.toBits.toNat_lt
  have hyb := y.toBits.toNat_lt
  have hbits : x.toBits.toNat = y.toBits.toNat := by
    unfold signBit exponentField fractionField at *
    rw [decide_eq_decide] at hs
    omega
  obtain ⟨⟨bx, _⟩⟩ := x
  obtain ⟨⟨bits, _⟩⟩ := y
  cases UInt64.toNat_inj.1 (show bx.toNat = bits.toNat from hbits)
  rfl

/-- A finite double is its magnitude with its sign. -/
theorem signed_abs {x : Float} (hx : x.isFinite = true) :
    (if signBit x then -x.abs else x.abs) = x := by
  have hf := hx
  rw [isFinite_eq, unpacked_eq] at hf
  refine (eq_of_unpacked_eq hx ?_).symm
  have hparts := unpacked_eq x
  cases hb : signBit x with
  | false =>
    rw [hb] at hparts hf
    rw [if_neg Bool.false_ne_true, unpacked_abs, hparts]
    rcases ofFields_cases hf with ⟨-, -, he⟩ | ⟨-, _, he⟩ | ⟨-, _, he⟩ <;> rw [he] <;> rfl
  | true =>
    rw [hb] at hparts hf
    rw [if_pos rfl, unpacked_neg, unpacked_abs, hparts]
    rcases ofFields_cases hf with ⟨-, -, he⟩ | ⟨-, _, he⟩ | ⟨-, _, he⟩ <;> rw [he] <;> rfl

/-! ## Neighbourhoods -/

/-- Half the gap below a mantissa, in units of its last place. -/
def halfGapBelow (m : ℕ) (e : ℤ) : ℚ :=
  if m = 0x10000000000000 ∧ -1074 < e then 1 / 4 else 1 / 2

theorem halfGapBelow_le (m : ℕ) (e : ℤ) : halfGapBelow m e ≤ 1 / 2 := by
  unfold halfGapBelow
  split <;> norm_num

/-- A number lies around some parts: within half the gaps to their neighbours, and inside of them
when the neighbours are the even ones. -/
structure Around (m : ℕ) (e : ℤ) (v : ℚ) : Prop where
  low : m - halfGapBelow m e ≤ v / 2 ^ e
  high : v / 2 ^ e ≤ m + 1 / 2
  odd : m % 2 = 1 → m - halfGapBelow m e < v / 2 ^ e ∧ v / 2 ^ e < m + 1 / 2

/-- Dividing by a finer unit. -/
theorem div_zpow_sub (v : ℚ) (e : ℤ) (d : ℕ) : v / 2 ^ (e - d) = v / 2 ^ e * 2 ^ d := by
  rw [zpow_sub₀ (by norm_num), zpow_natCast]
  field_simp

namespace Around

variable {m : ℕ} {e : ℤ} {v : ℚ}

/-- What lies around some parts is not rounded to zero. -/
theorem half_lt (h : Around m e v) (hm : 0 < m) : 1 / 2 < v / 2 ^ e := by
  have hgap := halfGapBelow_le m e
  rcases Nat.mod_two_eq_zero_or_one m with hp | hp
  · have hm2 : ((2 : ℕ) : ℚ) ≤ m := by exact_mod_cast (by omega)
    push_cast at hm2
    linarith [h.low]
  · have hm1 : ((1 : ℕ) : ℚ) ≤ m := by exact_mod_cast hm
    push_cast at hm1
    linarith [(h.odd hp).1]

theorem pos (h : Around m e v) (hm : 0 < m) : 0 < v :=
  (div_pos_iff_of_pos_right (by positivity)).1 ((by norm_num : (0 : ℚ) < 1 / 2).trans (h.half_lt hm))

/-- In its own unit, the nearest whole number to what lies around a mantissa is the mantissa. -/
theorem eq_of_near (h : Around m e v) {r : ℕ} (hnear : |(r : ℚ) - v / 2 ^ e| ≤ 1 / 2)
    (heven : |(r : ℚ) - v / 2 ^ e| = 1 / 2 → r % 2 = 0) : r = m := by
  have hgap := halfGapBelow_le m e
  obtain ⟨hl, hu, hodd⟩ := h
  obtain ⟨hnl, hnu⟩ := abs_le.1 hnear
  have hle : r ≤ m + 1 := by
    have : (r : ℚ) ≤ ((m + 1 : ℕ) : ℚ) := by
      push_cast
      linarith
    exact_mod_cast this
  have hge : m ≤ r + 1 := by
    have : (m : ℚ) ≤ ((r + 1 : ℕ) : ℚ) := by
      push_cast
      linarith
    exact_mod_cast this
  -- A neighbour is as near only from the bound, and then it is the odd one.
  rcases (show r = m ∨ r = m + 1 ∨ m = r + 1 by omega) with he | rfl | rfl
  · exact he
  · push_cast at hnu heven
    have hq : v / 2 ^ e = m + 1 / 2 := by linarith
    have := heven (by rw [hq]; norm_num)
    linarith [(hodd (by omega)).2]
  · push_cast at hl hgap hodd
    have hq : v / 2 ^ e = r + 1 / 2 := by linarith
    have := heven (by rw [hq]; norm_num)
    linarith [(hodd (by omega)).1]

/-- What lies around some parts is too small for a coarser unit. -/
theorem lt_of_coarser (h : Around m e v) (hm : m < 0x20000000000000) {t : ℤ} (ht : e < t)
    (hv : 0 < v) : v / 2 ^ t < 0x10000000000000 := by
  obtain ⟨d, hd⟩ := Int.le.dest (show e + 1 ≤ t by omega)
  have hd1 : (1 : ℚ) ≤ 2 ^ d := one_le_pow₀ (by norm_num)
  have hmq : (m : ℚ) ≤ ((0x1fffffffffffff : ℕ) : ℚ) := by exact_mod_cast (by omega)
  push_cast at hmq
  have hunit : v / 2 ^ e = v / 2 ^ t * (2 * 2 ^ d) := by
    rw [show e = t - ((1 + d : ℕ) : ℤ) by push_cast; omega, div_zpow_sub, pow_add, pow_one]
  have hle : v / 2 ^ t * 2 ≤ v / 2 ^ e := by
    rw [hunit]
    exact mul_le_mul_of_nonneg_left (by linarith) (by positivity)
  linarith [h.high]

/-- In a finer unit, what lies around some parts has too large a mantissa, unless it lies below a
power of two. -/
theorem eq_of_finer (h : Around m e v) (hm : 0x10000000000000 ≤ m) {t : ℤ} (ht : -1074 ≤ t)
    (hte : t < e) (hup : v / 2 ^ t ≤ 0x20000000000000 + 1 / 2) :
    m = 0x10000000000000 ∧ t + 1 = e ∧ 0x20000000000000 - 1 / 2 ≤ v / 2 ^ t := by
  obtain ⟨d, hd⟩ := Int.le.dest (show t + 1 ≤ e by omega)
  have hv : 0 < v := h.pos (by omega)
  have hunit : v / 2 ^ t = v / 2 ^ e * 2 * 2 ^ d := by
    rw [show t = e - ((1 + d : ℕ) : ℤ) by push_cast; omega, div_zpow_sub, pow_add, pow_one, mul_assoc]
  have hmul {b : ℚ} (hb : b ≤ 2 ^ d) : v / 2 ^ e * 2 * b ≤ v / 2 ^ t := by
    rw [hunit]
    exact mul_le_mul_of_nonneg_left hb (by positivity)
  have h1 := hmul (one_le_pow₀ (by norm_num))
  have hl := h.low
  have hgap := halfGapBelow_le m e
  have hmp : m = 0x10000000000000 := by
    by_contra hne
    have hgt : ((0x10000000000001 : ℕ) : ℚ) ≤ m := by exact_mod_cast (by omega)
    push_cast at hgt
    linarith
  subst hmp
  have hnarrow : halfGapBelow 0x10000000000000 e = 1 / 4 := if_pos ⟨rfl, by omega⟩
  rw [hnarrow] at hl
  push_cast at hl
  refine ⟨rfl, ?_, by linarith⟩
  by_contra hne
  have hd2 : (2 : ℚ) ^ 1 ≤ 2 ^ d := pow_le_pow_right₀ (by norm_num) (by omega)
  linarith [hmul hd2]

end Around

/-- From half below `2^53` on, the nearest whole number up to it is itself, for the one below is odd. -/
theorem eq_carry {r : ℕ} {q : ℚ} (hr : r ≤ 0x20000000000000) (hnear : |(r : ℚ) - q| ≤ 1 / 2)
    (heven : |(r : ℚ) - q| = 1 / 2 → r % 2 = 0) (hq : 0x20000000000000 - 1 / 2 ≤ q) :
    r = 0x20000000000000 := by
  have hlow := (abs_le.1 hnear).1
  by_contra hne
  have hreq : r = 0x1fffffffffffff := by
    have hge : ((0x1fffffffffffff : ℕ) : ℚ) ≤ r := by
      push_cast
      linarith
    exact le_antisymm (by omega) (by exact_mod_cast hge)
  subst hreq
  push_cast at hlow heven
  have htie : q = 0x20000000000000 - 1 / 2 := by linarith
  have := heven (by rw [htie]; norm_num)
  omega

/-- **What lies around some parts is rounded to them.** -/
theorem RoundsEven.eq_finite {v : ℚ} {f : UnpackedFloat} (h : RoundsEven v f) {m : ℕ} {e : ℤ}
    (hm : 0 < m) (hf : Fits (.finite .positive m e hm)) (ha : Around m e v) :
    f = .finite .positive m e hm := by
  obtain ⟨s, r, t, rfl, hr, ht, hnear, hn, heven⟩ := h
  obtain ⟨hm53, he, hfull⟩ := hf
  have hv := ha.pos hm
  rw [abs_of_pos (by positivity)] at hn
  have hte : t ≤ e := by
    by_contra hlt
    have hsmall := ha.lt_of_coarser hm53 (by omega : e < t) hv
    exact absurd (hn.resolve_left (by omega)) (not_le.2 hsmall)
  -- The number is positive, and too large to be rounded to zero.
  have hhalf : 1 / 2 < v / 2 ^ t := by
    obtain ⟨d, rfl⟩ := Int.le.dest hte
    have hd1 : (1 : ℚ) ≤ 2 ^ d := one_le_pow₀ (by norm_num)
    have hunit := div_zpow_sub v (t + d) d
    rw [add_sub_cancel_right] at hunit
    rw [hunit]
    exact (ha.half_lt hm).trans_le (le_mul_of_one_le_right (by positivity) hd1)
  have hr0 : (0 : ℚ) ≤ r := by positivity
  obtain ⟨hnl, hnu⟩ := abs_le.1 hnear
  cases s with
  | negative =>
    have hneg : signed .negative (r : ℚ) = -r := rfl
    rw [hneg] at hnl
    linarith
  | positive =>
    replace hnear : |(r : ℚ) - v / 2 ^ t| ≤ 1 / 2 := hnear
    replace heven : |(r : ℚ) - v / 2 ^ t| = 1 / 2 → r % 2 = 0 := heven
    replace hnl : -(1 / 2) ≤ (r : ℚ) - v / 2 ^ t := hnl
    rcases hte.lt_or_eq with hte | rfl
    · have hrq : (r : ℚ) ≤ ((0x20000000000000 : ℕ) : ℚ) := by exact_mod_cast hr
      push_cast at hrq
      obtain ⟨rfl, rfl, hlow⟩ := ha.eq_of_finer (hfull.resolve_right (by omega)) ht hte (by linarith)
      have hcarry := eq_carry hr hnear heven hlow
      subst hcarry
      rfl
    · obtain rfl := ha.eq_of_near hnear heven
      unfold ofUnits
      rw [dif_neg (by omega), if_pos hm53]

/-- **A double is the rounded value of every number around it.** -/
theorem NearestEven.eq_of_around {v : ℚ} {z x : Float} (h : NearestEven v z) {m : ℕ} {e : ℤ}
    {hm : 0 < m} (hx : unpacked x = .finite .positive m e hm) (ha : Around m e v) : z = x := by
  obtain ⟨f, hf, hz⟩ := h
  have hfits := fits_unpacked x
  rw [hx] at hfits
  have hfin : x.isFinite = true := by
    rw [isFinite_eq, hx]
    rfl
  refine (eq_of_unpacked_eq hfin ?_).symm
  rw [hz, hf.eq_finite hm hfits ha, ← hx, settled_unpacked]

end QueryForecast.Numeric
