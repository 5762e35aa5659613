import QueryForecast.Proofs.Numeric.Defined

/-!
# Comparing doubles

* `defined_le_of_not_lt` — two defined numbers compare one way or the other.
* `lt_iff_val_lt`, `le_iff_val_le` — finite doubles compare as the numbers that they stand for.
* `clamp_mem` — a defined number that is moved into an interval lies in it.
-/

namespace QueryForecast.Numeric

open Float.Model Float.Model.UnpackedFloat

theorem lt_iff_compare (x y : Float) :
    x < y ↔ (unpacked x).compare (unpacked y) = some .lt := by
  show (decide ((((unpacked x).compare (unpacked y)) == some .lt) = true)) = true ↔ _
  simp

theorem le_iff_compare (x y : Float) :
    x ≤ y ↔ ((unpacked x).compare (unpacked y)).any (·.isLE) = true := by
  show (decide ((((unpacked x).compare (unpacked y)).any (·.isLE)) = true)) = true ↔ _
  simp

theorem compare_swap (f g : UnpackedFloat) : g.compare f = (f.compare g).map Ordering.swap := by
  cases f with
  | infinity s =>
    cases g with
    | infinity s' => cases s <;> cases s' <;> rfl
    | notANumber => rfl
    | zero s' => cases s <;> rfl
    | finite s' => cases s <;> cases s' <;> rfl
  | notANumber => cases g <;> rfl
  | zero s =>
    cases g with
    | infinity s' => cases s' <;> rfl
    | notANumber => rfl
    | zero s' => rfl
    | finite s' => cases s' <;> rfl
  | finite s m e hm =>
    cases g with
    | infinity s' => cases s <;> cases s' <;> rfl
    | notANumber => cases s <;> rfl
    | zero s' => cases s <;> rfl
    | finite s' n d hn =>
      cases s <;> cases s' <;>
        simp [UnpackedFloat.compare, Ordering.swap_then, Int.compare_swap, Nat.compare_swap]

theorem exists_compare {f g : UnpackedFloat} (hf : f.isNaN = false) (hg : g.isNaN = false) :
    ∃ o, f.compare g = some o := by
  cases f with
  | infinity s =>
    cases g with
    | notANumber => cases hg
    | _ => cases s <;> exact ⟨_, rfl⟩
  | notANumber => cases hf
  | zero s =>
    cases g with
    | notANumber => cases hg
    | infinity s' => cases s' <;> exact ⟨_, rfl⟩
    | zero s' => exact ⟨_, rfl⟩
    | finite s' => cases s' <;> exact ⟨_, rfl⟩
  | finite s m e hm =>
    cases g with
    | notANumber => cases hg
    | infinity s' => cases s <;> cases s' <;> exact ⟨_, rfl⟩
    | zero s' => cases s <;> exact ⟨_, rfl⟩
    | finite s' => cases s <;> cases s' <;> exact ⟨_, rfl⟩

/-- Two defined numbers compare one way or the other. -/
theorem defined_le_of_not_lt {x y : Float} (hx : x.isNaN = false) (hy : y.isNaN = false) (h : ¬ x < y) :
    y ≤ x := by
  rw [lt_iff_compare] at h
  rw [le_iff_compare, compare_swap]
  obtain ⟨o, ho⟩ := exists_compare (f := unpacked x) (g := unpacked y) hx hy
  rw [ho] at h ⊢
  cases o
  · exact absurd rfl h
  · rfl
  · rfl

/-- A number between two finite ones is finite. -/
theorem isFinite_of_between {x low high : Float} (hx : x.isNaN = false) (hl : low.isFinite)
    (hh : high.isFinite) (h1 : ¬ high < x) (h2 : ¬ x ≤ low) : x.isFinite = true := by
  refine (finite_or_infinite hx).resolve_right fun ⟨s, hs⟩ => ?_
  rw [lt_iff_compare, hs] at h1
  rw [le_iff_compare, hs] at h2
  rw [isFinite_eq] at hl hh
  cases s with
  | negative =>
    refine h2 ?_
    cases hu : unpacked low with
    | infinity s' => rw [hu] at hl; cases hl
    | notANumber => rw [hu] at hl; cases hl
    | zero s' => rfl
    | finite s' m e hm => rfl
  | positive =>
    refine h1 ?_
    cases hu : unpacked high with
    | infinity s' => rw [hu] at hh; cases hh
    | notANumber => rw [hu] at hh; cases hh
    | zero s' => rfl
    | finite s' m e hm => cases s' <;> rfl

/-- A number that was found to be above a number and at most a finite one is finite. -/
theorem isFinite_of_lt_of_le {x low high : Float} (hh : high.isFinite) (h1 : low < x)
    (h2 : x ≤ high) : x.isFinite = true := by
  rw [lt_iff_compare] at h1
  rw [le_iff_compare] at h2
  rw [isFinite_eq] at hh ⊢
  cases hx : unpacked x with
  | notANumber =>
    rw [hx] at h2
    cases h2
  | infinity s =>
    rw [hx] at h1 h2
    cases s with
    | negative => cases hu : unpacked low with
      | infinity s' => rw [hu] at h1; cases s' <;> cases h1
      | notANumber => rw [hu] at h1; cases h1
      | zero s' => rw [hu] at h1; cases h1
      | finite s' m e hm => rw [hu] at h1; cases s' <;> cases h1
    | positive => cases hu : unpacked high with
      | infinity s' => rw [hu] at hh; cases hh
      | notANumber => rw [hu] at hh; cases hh
      | zero s' => rw [hu] at h2; cases h2
      | finite s' m e hm => rw [hu] at h2; cases s' <;> cases h2
  | zero s => rfl
  | finite s m e hm => rfl

/-- A defined number that is moved into an interval lies in it. -/
theorem clamp_mem {low high x : Float} (hl : low.isNaN = false) (hh : high.isNaN = false)
    (hx : x.isNaN = false) (h : low ≤ high) (hll : low ≤ low) (hhh : high ≤ high) :
    low ≤ clamp low high x ∧ clamp low high x ≤ high := by
  unfold clamp
  split
  · exact ⟨hll, h⟩
  · rename_i h1
    split
    · exact ⟨h, hhh⟩
    · rename_i h2
      exact ⟨defined_le_of_not_lt hx hl h1, defined_le_of_not_lt hh hx h2⟩

/-! ## Finite doubles -/

/-- The larger exponent decides, since a mantissa that is not full has the least exponent. -/
theorem mul_zpow_lt_of_exponent_lt {m n : ℕ} {e d : ℤ} (hm : m < 0x20000000000000)
    (hn : 0x10000000000000 ≤ n) (h : e < d) : (m : ℚ) * 2 ^ e < n * 2 ^ d := by
  have hm' : (m : ℚ) < ((0x20000000000000 : ℕ) : ℚ) := by exact_mod_cast hm
  have hn' : ((0x10000000000000 : ℕ) : ℚ) ≤ n := by exact_mod_cast hn
  have h2 : (2 : ℚ) ^ (e + 1) ≤ 2 ^ d := zpow_le_zpow_right₀ (by norm_num) (by omega)
  rw [zpow_add_one₀ (by norm_num)] at h2
  have he : (0 : ℚ) < 2 ^ e := by positivity
  push_cast at hm' hn'
  calc (m : ℚ) * 2 ^ e < 0x20000000000000 * 2 ^ e := mul_lt_mul_of_pos_right hm' he
    _ = 0x10000000000000 * (2 ^ e * 2) := by ring
    _ ≤ n * 2 ^ d := mul_le_mul hn' h2 (by positivity) (by positivity)

theorem compare_magnitudes {s s' : Sign} {m n : ℕ} {e d : ℤ} {hm : 0 < m} {hn : 0 < n}
    (hf : Fits (.finite s m e hm)) (hg : Fits (.finite s' n d hn)) :
    (compare e d).then (compare m n) = compare ((m : ℚ) * 2 ^ e) (n * 2 ^ d) := by
  obtain ⟨hm53, he, hm52⟩ := hf
  obtain ⟨hn53, hd, hn52⟩ := hg
  rcases lt_trichotomy e d with h | rfl | h
  · rw [Int.compare_eq_lt.2 h,
      compare_lt_iff_lt.2 (mul_zpow_lt_of_exponent_lt hm53 (hn52.resolve_right (by omega)) h)]
    rfl
  · have h2 : (0 : ℚ) < 2 ^ e := by positivity
    rw [Int.compare_eq_eq.2 rfl]
    rcases lt_trichotomy m n with h | rfl | h
    · rw [Nat.compare_eq_lt.2 h,
        compare_lt_iff_lt.2 (mul_lt_mul_of_pos_right (by exact_mod_cast h) h2)]
      rfl
    · rw [Nat.compare_eq_eq.2 rfl, compare_eq_iff_eq.2 rfl]
      rfl
    · rw [Nat.compare_eq_gt.2 h,
        compare_gt_iff_gt.2 (mul_lt_mul_of_pos_right (by exact_mod_cast h) h2)]
      rfl
  · rw [Int.compare_eq_gt.2 h,
      compare_gt_iff_gt.2 (mul_zpow_lt_of_exponent_lt hn53 (hm52.resolve_right (by omega)) h)]
    rfl

theorem compare_neg_neg (a b : ℚ) : compare (-a) (-b) = (compare a b).swap := by
  rcases lt_trichotomy a b with h | rfl | h
  · rw [compare_lt_iff_lt.2 h, compare_gt_iff_gt.2 (neg_lt_neg h)]
    rfl
  · rw [compare_eq_iff_eq.2 rfl, compare_eq_iff_eq.2 rfl]
    rfl
  · rw [compare_gt_iff_gt.2 h, compare_lt_iff_lt.2 (neg_lt_neg h)]
    rfl

/-- **Finite doubles compare as the numbers that they stand for.** -/
theorem compare_eq_compare_value {f g : UnpackedFloat} (hf : Fits f) (hg : Fits g)
    (hf' : f.isFinite) (hg' : g.isFinite) : f.compare g = some (compare (value f) (value g)) := by
  have hpos : ∀ {m : ℕ} (e : ℤ), 0 < m → (0 : ℚ) < m * 2 ^ e := fun e hm => by positivity
  cases f with
  | infinity s => cases hf'
  | notANumber => cases hf'
  | zero s =>
    cases g with
    | infinity s' => cases hg'
    | notANumber => cases hg'
    | zero s' =>
      rw [show compare (value (.zero s)) (value (.zero s')) = .eq from compare_eq_iff_eq.2 rfl]
      rfl
    | finite s' n d hn =>
      have hp := hpos d hn
      cases s'
      · rw [show compare (value (.zero s)) (value (.finite .negative n d hn)) = .gt from
          compare_gt_iff_gt.2 (neg_lt_zero.2 hp)]
        rfl
      · rw [show compare (value (.zero s)) (value (.finite .positive n d hn)) = .lt from
          compare_lt_iff_lt.2 hp]
        rfl
  | finite s m e hm =>
    have hp := hpos e hm
    cases g with
    | infinity s' => cases hg'
    | notANumber => cases hg'
    | zero s' =>
      cases s
      · rw [show compare (value (.finite .negative m e hm)) (value (.zero s')) = .lt from
          compare_lt_iff_lt.2 (neg_lt_zero.2 hp)]
        rfl
      · rw [show compare (value (.finite .positive m e hm)) (value (.zero s')) = .gt from
          compare_gt_iff_gt.2 hp]
        rfl
    | finite s' n d hn =>
      have hp' := hpos d hn
      have hc := compare_magnitudes hf hg
      cases s <;> cases s'
      · show some _ = some (compare (-_) (-_))
        rw [compare_neg_neg, ← hc]
      · rw [show compare (value (.finite .negative m e hm)) (value (.finite .positive n d hn)) = .lt
          from compare_lt_iff_lt.2 ((neg_lt_zero.2 hp).trans hp')]
        rfl
      · rw [show compare (value (.finite .positive m e hm)) (value (.finite .negative n d hn)) = .gt
          from compare_gt_iff_gt.2 ((neg_lt_zero.2 hp').trans hp)]
        rfl
      · exact congrArg some hc

theorem lt_iff_val_lt {x y : Float} (hx : x.isFinite) (hy : y.isFinite) :
    x < y ↔ val x < val y := by
  rw [lt_iff_compare, compare_eq_compare_value (fits_unpacked x) (fits_unpacked y) hx hy,
    Option.some_inj]
  exact compare_lt_iff_lt

theorem le_iff_val_le {x y : Float} (hx : x.isFinite) (hy : y.isFinite) :
    x ≤ y ↔ val x ≤ val y := by
  rw [le_iff_compare, compare_eq_compare_value (fits_unpacked x) (fits_unpacked y) hx hy]
  show (compare (val x) (val y)).isLE = true ↔ _
  rw [← not_lt, ← compare_gt_iff_gt]
  cases compare (val x) (val y) <;> simp

end QueryForecast.Numeric
