import QueryForecast.Proofs.Numeric.Extended

/-!
# Places of defined doubles

The places of the infinities enclose those of the finite doubles. So sorting defined doubles by their
places brings them into their own order, also where some of them are infinite.

* `toNat_rank_of_infinity`, `toNat_rank_bounds` — the places of infinite and of finite doubles.
* `le_of_precedes` — doubles in the order of their places.
-/

namespace QueryForecast.Numeric

open Float.Model Float.Model.UnpackedFloat

variable {x y : Float}

/-- The fields of an infinity. -/
theorem fields_of_infinity {s : Sign} (h : unpacked x = .infinity s) :
    signOf (signBit x) = s ∧ exponentField x = 2047 ∧ fractionField x = 0 := by
  rw [unpacked_eq] at h
  unfold ofFields at h
  split at h
  · rename_i he
    split at h
    · rename_i hf
      cases h
      exact ⟨rfl, he, hf⟩
    · cases h
  · split at h
    · split at h <;> cases h
    · cases h

/-- The place of an infinity. -/
def infinityPlace : Sign → ℕ
  | .negative => 0x000fffffffffffff
  | .positive => 0xfff0000000000000

theorem toNat_rank_of_infinity {s : Sign} (h : unpacked x = .infinity s) :
    (rank x).toNat = infinityPlace s := by
  obtain ⟨rfl, he, hf⟩ := fields_of_infinity h
  have hx := x.toBits.toNat_lt
  have hb : signBit x = decide (0x8000000000000000 ≤ x.toBits.toNat) := rfl
  clear h
  unfold exponentField at he
  unfold fractionField at hf
  rw [toNat_rank]
  cases hs : signBit x with
  | true =>
    rw [hb, decide_eq_true_eq] at hs
    show 0xffffffffffffffff - x.toBits.toNat = 0x000fffffffffffff
    omega
  | false =>
    rw [hb, decide_eq_false_iff_not] at hs
    show 0x8000000000000000 + x.toBits.toNat = 0xfff0000000000000
    omega

/-- A finite double has its place between the infinities. -/
theorem toNat_rank_bounds (h : x.isFinite) :
    infinityPlace .negative < (rank x).toNat ∧ (rank x).toNat < infinityPlace .positive := by
  have he := exponentField_ne h
  have hx := x.toBits.toNat_lt
  have hb : signBit x = decide (0x8000000000000000 ≤ x.toBits.toNat) := rfl
  unfold exponentField at he
  rw [toNat_rank]
  cases hs : signBit x with
  | true =>
    rw [hb, decide_eq_true_eq] at hs
    rw [if_pos rfl]
    dsimp only [infinityPlace]
    omega
  | false =>
    rw [hb, decide_eq_false_iff_not] at hs
    rw [if_neg Bool.false_ne_true]
    dsimp only [infinityPlace]
    omega

theorem le_of_infinite (hx : x.isNaN = false) (hy : unpacked y = .infinity .positive) : x ≤ y := by
  have hn : y.isNaN = false := by rw [isNaN_eq, hy]; rfl
  rw [le_iff_extended hx hn, extended, extended, hy]
  exact le_top

theorem infinite_le (hx : unpacked x = .infinity .negative) (hy : y.isNaN = false) : x ≤ y := by
  have hn : x.isNaN = false := by rw [isNaN_eq, hx]; rfl
  rw [le_iff_extended hn hy, extended, hx]
  exact bot_le

/-- **Defined doubles in the order of their places are in their own order.** -/
theorem le_of_precedes (hx : x.isNaN = false) (hy : y.isNaN = false) (h : precedes x y = true) :
    x ≤ y := by
  have hrank : (rank x).toNat ≤ (rank y).toNat := by
    rwa [precedes, decide_eq_true_eq, UInt64.le_iff_toNat_le] at h
  rcases finite_or_infinite hx with hxf | ⟨s, hs⟩ <;> rcases finite_or_infinite hy with hyf | ⟨s', hs'⟩
  · exact (le_iff_val_le hxf hyf).2 (val_le_of_precedes hxf hyf h)
  · cases s' with
    | positive => exact le_of_infinite hx hs'
    | negative =>
      rw [toNat_rank_of_infinity hs'] at hrank
      exact absurd (toNat_rank_bounds hxf).1 hrank.not_gt
  · cases s with
    | negative => exact infinite_le hs hy
    | positive =>
      rw [toNat_rank_of_infinity hs] at hrank
      exact absurd (toNat_rank_bounds hyf).2 hrank.not_gt
  · cases s' with
    | positive => exact le_of_infinite hx hs'
    | negative =>
      cases s with
      | negative => exact infinite_le hs hy
      | positive =>
        rw [toNat_rank_of_infinity hs, toNat_rank_of_infinity hs'] at hrank
        exact absurd hrank (by decide)

end QueryForecast.Numeric
