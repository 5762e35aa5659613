import QueryForecast.Proofs.Numeric.Totals

/-!
# Percentiles and intervals follow their numbers

The element at a position of an ascending list is told by counting: it is at most a bound exactly when
more elements than its position are. Lowering the numbers of a list, each by itself, leaves no fewer of
them below a bound, and so raises no percentile.

* `lt_countP_iff_of_pairwise`, `lt_countP_iff` — elements of an ascending list, by counting.
* `percentile_cases`, `val_percentile_le` — a percentile is one of the numbers; that of lower ones is lower.
* `extended_clamp`, `clamp_mono` — what is moved into an interval, and keeps its order there.
-/

namespace QueryForecast.Numeric

/-! ## Counting -/

section

variable {α β : Type} [LinearOrder β] {key : α → β} {xs ys : List α}

/-- **The element at a position has a property exactly when more elements than its position have it**, if
no element has it after one that has not. -/
theorem lt_countP_iff_of_pairwise {p : α → Bool} (hs : xs.Pairwise fun x y => p y = true → p x = true)
    {k : ℕ} (hk : k < xs.length) : k < xs.countP p ↔ p xs[k] = true := by
  induction xs generalizing k with
  | nil => exact absurd hk (Nat.not_lt_zero k)
  | cons x rest ih =>
    rw [List.pairwise_cons] at hs
    by_cases hx : p x = true
    · rw [List.countP_cons_of_pos hx]
      cases k with
      | zero => exact iff_of_true (Nat.succ_pos _) hx
      | succ k =>
        rw [Nat.add_lt_add_iff_right]
        exact ih hs.2 (Nat.lt_of_succ_lt_succ hk)
    · -- The first element does not have it, and so no other has.
      have hnot : ∀ y ∈ x :: rest, ¬ p y = true :=
        List.forall_mem_cons.2 ⟨hx, fun y hy hp => hx (hs.1 y hy hp)⟩
      rw [List.countP_eq_zero.2 hnot]
      exact iff_of_false (Nat.not_lt_zero k) (hnot _ (List.getElem_mem hk))

/-- **The element at a position of an ascending list is at most a bound exactly when more elements than
its position are.** -/
theorem lt_countP_iff (hs : xs.Pairwise fun x y => key x ≤ key y) {k : ℕ} (hk : k < xs.length)
    (bound : β) : k < xs.countP (fun x => key x ≤ bound) ↔ key xs[k] ≤ bound := by
  have h := lt_countP_iff_of_pairwise (p := fun x => decide (key x ≤ bound))
    (hs.imp fun {x y} hxy hy => by simpa using hxy.trans (by simpa using hy)) hk
  rwa [decide_eq_true_eq] at h

/-- Lowering elements leaves no fewer of them up to a bound. -/
theorem countP_le_countP (h : List.Forall₂ (fun x y => key x ≤ key y) xs ys) (bound : β) :
    ys.countP (fun y => key y ≤ bound) ≤ xs.countP (fun x => key x ≤ bound) := by
  induction h with
  | nil => exact Nat.le_refl _
  | @cons x y xs ys hxy h ih =>
    rw [List.countP_cons, List.countP_cons]
    by_cases hy : key y ≤ bound
    · rw [if_pos (by simpa using hy), if_pos (by simpa using hxy.trans hy)]
      exact Nat.succ_le_succ ih
    · rw [if_neg (by simpa using hy)]
      exact Nat.le_add_right_of_le ih

end

/-! ## Percentiles -/

section

variable {xs ys : List Float}

theorem ascending_perm (xs : List Float) : (ascending xs).Perm xs :=
  List.mergeSort_perm xs precedes

@[simp] theorem length_ascending (xs : List Float) : (ascending xs).length = xs.length :=
  (ascending_perm xs).length_eq

theorem ascending_sorted (xs : List Float) :
    (ascending xs).Pairwise fun x y => precedes x y = true :=
  List.pairwise_mergeSort precedes_trans precedes_total xs

theorem ascending_val (h : ∀ x ∈ xs, x.isFinite = true) :
    (ascending xs).Pairwise fun x y => val x ≤ val y := by
  refine (ascending_sorted xs).imp_of_mem fun {x y} hx hy hxy => ?_
  have hp := ascending_perm xs
  exact val_le_of_precedes (h x (hp.mem_iff.1 hx)) (h y (hp.mem_iff.1 hy)) hxy

/-- A percentile is one of the numbers, or zero when there is none at its position. -/
theorem percentile_cases (xs : List Float) (fraction : Float) :
    percentile xs fraction ∈ xs ∨ percentile xs fraction = 0.0 := by
  unfold percentile
  rw [List.getD_eq_getElem?_getD]
  cases hx : (ascending xs)[percentileIndex xs.length fraction]? with
  | none => exact .inr rfl
  | some x => exact .inl ((ascending_perm xs).mem_iff.1 (List.mem_of_getElem? hx))

theorem percentile_nil (fraction : Float) : percentile [] fraction = 0.0 :=
  (percentile_cases [] fraction).resolve_left List.not_mem_nil

/-- **A percentile of lower numbers is lower.** -/
theorem val_percentile_le (hx : ∀ x ∈ xs, x.isFinite = true) (hy : ∀ y ∈ ys, y.isFinite = true)
    (h : List.Forall₂ (fun x y => val x ≤ val y) xs ys) (fraction : Float) :
    val (percentile xs fraction) ≤ val (percentile ys fraction) := by
  unfold percentile
  rw [← h.length_eq]
  generalize percentileIndex xs.length fraction = k
  by_cases hk : k < xs.length
  · have hkx : k < (ascending xs).length := by rwa [length_ascending]
    have hky : k < (ascending ys).length := by rwa [length_ascending, ← h.length_eq]
    rw [List.getD_eq_getElem _ _ hkx, List.getD_eq_getElem _ _ hky,
      ← lt_countP_iff (ascending_val hx) hkx, (ascending_perm xs).countP_eq]
    have hcount := (lt_countP_iff (ascending_val hy) hky (val (ascending ys)[k])).2 (le_refl _)
    rw [(ascending_perm ys).countP_eq] at hcount
    exact hcount.trans_le (countP_le_countP h _)
  · have hkx : (ascending xs).length ≤ k := by rwa [length_ascending, ← not_lt]
    have hky : (ascending ys).length ≤ k := by rwa [length_ascending, ← h.length_eq, ← not_lt]
    rw [List.getD_eq_default _ _ hkx, List.getD_eq_default _ _ hky]

end

/-! ## Intervals -/

section

variable {low high x y : Float}

/-- What is moved into an interval is cut off at its ends. -/
theorem extended_clamp (hl : low.isNaN = false) (hh : high.isNaN = false) (hx : x.isNaN = false)
    (h : extended low ≤ extended high) :
    extended (clamp low high x) = max (extended low) (min (extended high) (extended x)) := by
  unfold clamp
  split
  · rename_i hlow
    rw [lt_iff_extended hx hl] at hlow
    rw [min_eq_right (hlow.le.trans h), max_eq_left hlow.le]
  · rename_i hlow
    rw [lt_iff_extended hx hl, not_lt] at hlow
    split
    · rename_i hhigh
      rw [lt_iff_extended hh hx] at hhigh
      rw [min_eq_left hhigh.le, max_eq_right h]
    · rename_i hhigh
      rw [lt_iff_extended hh hx, not_lt] at hhigh
      rw [min_eq_right hhigh, max_eq_right hlow]

theorem isNaN_clamp (hl : low.isNaN = false) (hh : high.isNaN = false) (hx : x.isNaN = false) :
    (clamp low high x).isNaN = false := by
  unfold clamp
  split
  · exact hl
  · split
    · exact hh
    · exact hx

/-- **Moving numbers into an interval keeps their order.** -/
theorem clamp_mono (h : low ≤ high) (hxy : x ≤ y) : clamp low high x ≤ clamp low high y := by
  obtain ⟨hl, hh⟩ := isNaN_of_le h
  obtain ⟨hx, hy⟩ := isNaN_of_le hxy
  rw [le_iff_extended hl hh] at h
  rw [le_iff_extended hx hy] at hxy
  rw [le_iff_extended (isNaN_clamp hl hh hx) (isNaN_clamp hl hh hy), extended_clamp hl hh hx h,
    extended_clamp hl hh hy h]
  exact max_le_max (le_refl _) (min_le_min (le_refl _) hxy)

theorem clamp_le_clamp (hl : low.isFinite) (hh : high.isFinite) (h : val low ≤ val high)
    (hx : x.isFinite) (hy : y.isFinite) (hxy : val x ≤ val y) :
    clamp low high x ≤ clamp low high y :=
  clamp_mono ((le_iff_val_le hl hh).2 h) ((le_iff_val_le hx hy).2 hxy)

end

end QueryForecast.Numeric
