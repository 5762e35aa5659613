import QueryForecast.Proofs.Numeric.Halfway
import QueryForecast.Proofs.Numeric.Neighbourhood

/-!
# Doubles without a sign

A finite double whose sign bit is not set is known by its number, so the greatest of some of them does
not depend on the order in which they are compared. Taking a fraction of one never makes it larger.

* `eq_of_val_eq` — finite doubles without a sign are known by their numbers.
* `foldl_atLeast_spec`, `foldl_atLeast_congr` — the greatest of some doubles.
* `mul_le_left` — a fraction of a double.
-/

namespace QueryForecast.Numeric

open Float.Model Float.Model.UnpackedFloat

variable {x y bound : Float}

/-- **A finite double without a sign is known by its number.** -/
theorem eq_of_val_eq (hx : x.isFinite) (hy : y.isFinite) (hsx : signBit x = false)
    (hsy : signBit y = false) (h : val x = val y) : x = y := by
  rw [val_eq_magnitude hx, val_eq_magnitude hy, hsx, hsy] at h
  change magnitude _ _ = magnitude _ _ at h
  have hfx := fractionField_lt x
  have hfy := fractionField_lt y
  have hfields : exponentField x * 0x10000000000000 + fractionField x =
      exponentField y * 0x10000000000000 + fractionField y := by
    rcases lt_trichotomy (exponentField x * 0x10000000000000 + fractionField x)
      (exponentField y * 0x10000000000000 + fractionField y) with hlt | heq | hgt
    · exact absurd h (magnitude_lt hfx hfy hlt).ne
    · exact heq
    · exact absurd h (magnitude_lt hfy hfx hgt).ne'
  apply eq_of_unpacked_eq hx
  rw [unpacked_eq, unpacked_eq, hsx, hsy, show exponentField x = exponentField y by omega,
    show fractionField x = fractionField y by omega]

theorem abs_ofFields (s : Sign) (e f : ℕ) : (ofFields s e f).abs = ofFields .positive e f := by
  unfold ofFields
  split
  · split <;> rfl
  · split
    · split <;> rfl
    · rfl

/-- What a finite double is without its sign has none. -/
theorem signBit_abs (hx : x.isFinite) : signBit x.abs = false := by
  have hu : ofFields (signOf (signBit x.abs)) (exponentField x.abs) (fractionField x.abs) =
      ofFields .positive (exponentField x) (fractionField x) := by
    rw [← unpacked_eq, unpacked_abs, unpacked_eq, abs_ofFields]
  have hf : (ofFields (signOf (signBit x.abs)) (exponentField x.abs)
      (fractionField x.abs)).isFinite = true := by
    rw [← unpacked_eq, ← isFinite_eq, isFinite_abs, hx]
  exact signOf_injective (b := false)
    (fields_eq_of_ofFields_eq (fractionField_lt _) (fractionField_lt _) hf hu).1

/-! ## The greatest of some doubles -/

theorem atLeast_eq (hx : x.isFinite) : atLeast bound x = if x < bound then bound else x := by
  unfold atLeast
  rw [isNaN_of_isFinite hx]
  rfl

theorem val_atLeast (hb : bound.isFinite) (hx : x.isFinite) :
    val (atLeast bound x) = max (val bound) (val x) := by
  rw [atLeast_eq hx]
  split
  · rename_i h
    exact (max_eq_left ((lt_iff_val_lt hx hb).1 h).le).symm
  · rename_i h
    rw [lt_iff_val_lt hx hb, not_lt] at h
    exact (max_eq_right h).symm

theorem atLeast_cases (bound x : Float) : atLeast bound x = bound ∨ atLeast bound x = x := by
  unfold atLeast
  split
  · exact .inl rfl
  · split
    · exact .inl rfl
    · exact .inr rfl

/-- **The greatest of some doubles** is one of them, and none is greater. -/
theorem foldl_atLeast_spec {xs : List Float} (hb : bound.isFinite)
    (hxs : ∀ x ∈ xs, x.isFinite = true) :
    xs.foldl atLeast bound ∈ bound :: xs ∧ ∀ x ∈ bound :: xs, val x ≤ val (xs.foldl atLeast bound) := by
  induction xs generalizing bound with
  | nil => simp
  | cons x rest ih =>
    rw [List.forall_mem_cons] at hxs
    have hf : (atLeast bound x).isFinite = true := by
      rcases atLeast_cases bound x with h | h <;> rw [h]
      exacts [hb, hxs.1]
    obtain ⟨hmem, hle⟩ := ih hf hxs.2
    rw [List.forall_mem_cons, val_atLeast hb hxs.1, max_le_iff] at hle
    refine ⟨?_, List.forall_mem_cons.2 ⟨hle.1.1, List.forall_mem_cons.2 ⟨hle.1.2, hle.2⟩⟩⟩
    rw [List.foldl_cons]
    rcases List.mem_cons.1 hmem with h | h
    · rw [h]
      rcases atLeast_cases bound x with h' | h' <;> rw [h'] <;> simp
    · exact List.mem_cons_of_mem _ (List.mem_cons_of_mem _ h)

/-- **The greatest of some doubles without a sign depends on nothing but which they are.** -/
theorem foldl_atLeast_congr {xs ys : List Float} (hb : bound.isFinite) (hsb : signBit bound = false)
    (hxs : ∀ x ∈ xs, x.isFinite = true ∧ signBit x = false) (h : ∀ x, x ∈ xs ↔ x ∈ ys) :
    xs.foldl atLeast bound = ys.foldl atLeast bound := by
  have hmem (x : Float) : x ∈ bound :: xs ↔ x ∈ bound :: ys := by
    rw [List.mem_cons, List.mem_cons, h]
  have hall : ∀ x ∈ bound :: xs, x.isFinite = true ∧ signBit x = false :=
    List.forall_mem_cons.2 ⟨⟨hb, hsb⟩, hxs⟩
  obtain ⟨hx, hxle⟩ := foldl_atLeast_spec hb fun x hx => (hxs x hx).1
  have hys : ∀ x ∈ ys, x.isFinite = true := fun x hx => (hxs x ((h x).2 hx)).1
  obtain ⟨hy, hyle⟩ := foldl_atLeast_spec hb hys
  have hy := (hmem _).2 hy
  exact eq_of_val_eq (hall _ hx).1 (hall _ hy).1 (hall _ hx).2 (hall _ hy).2
    (le_antisymm (hyle _ ((hmem _).1 hx)) (hxle _ hy))

/-! ## Fractions -/

/-- **A fraction of a double that is not negative is not negative, and no larger.** -/
theorem mul_le_left (hx : x.isFinite) (hy : y.isFinite) (h0 : 0 ≤ val x) (hy0 : 0 ≤ val y)
    (hy1 : val y ≤ 1) :
    (x * y).isFinite = true ∧ 0 ≤ val (x * y) ∧ val (x * y) ≤ val x := by
  have hpos : 0 ≤ val x * val y := mul_nonneg h0 hy0
  have hle : val x * val y ≤ val x := mul_le_of_le_one_right h0 hy1
  obtain ⟨hf, hr⟩ := (nearest_mul hx hy).finite_of_le (isDouble_val x)
    (by rwa [abs_of_nonneg hpos]) ((le_abs_self _).trans_lt (abs_val_lt x))
  exact ⟨hf, hr.le_value isDouble_zero hpos, hr.value_le (isDouble_val x) hle⟩

end QueryForecast.Numeric
