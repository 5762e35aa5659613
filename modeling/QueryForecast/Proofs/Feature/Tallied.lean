import QueryForecast.Feature.Heuristic
import QueryForecast.Proofs.Numeric.Exponential
import QueryForecast.Proofs.Numeric.Unsigned

/-!
# Which orders of filters matter

The fraction of rows that pass some filters is a product of doubles, which is rounded after each factor,
so it may depend on the order of the filters. But there are only three factors besides one, and a product
that falls below the least selectivity stays there, so few products are left. They show that the order
matters for four combinations of operators only, and that not more than one rounding is at stake.

* `Tally`, `Tally.OrderSensitive` — how many operators of each kind there are, and when their order
  matters.
* `Reached.step`, `reached_product` — one factor more, and the product of some filters.
* `filterSelectivity_of_perm` — filters in two orders.
* `exists_perm_filterSelectivity_ne` — where the order matters, some order gives another fraction.
-/

namespace QueryForecast

/-- Doubles between which there is no other one. -/
def Numeric.Neighbours (x y : Float) : Prop :=
  (rank x).toNat ≤ (rank y).toNat + 1 ∧ (rank y).toNat ≤ (rank x).toNat + 1

instance (x y : Float) : Decidable (Numeric.Neighbours x y) :=
  inferInstanceAs (Decidable (_ ∧ _))

namespace Heuristic

open Numeric

/-! ## Tallies -/

/-- How many filters compare for equality, match a pattern, and compare for a range. -/
@[ext]
structure Tally where
  equalities : Nat := 0
  patterns : Nat := 0
  ranges : Nat := 0
  deriving DecidableEq

/-- The tally of some filters. -/
def tally (filters : List Filter) : Tally where
  equalities := filters.countP (·.operator = "=")
  patterns := filters.countP (·.operator = "LIKE")
  ranges := filters.countP (·.operator ∈ ["<", ">", "<=", ">="])

namespace Tally

variable {t : Tally}

/-- The number of operators in a tally. -/
def total (t : Tally) : Nat :=
  t.equalities + t.patterns + t.ranges

/-- The tally with one operator more; one that is not known does not count. -/
def after (t : Tally) (operator : String) : Tally :=
  if operator = "=" then { t with equalities := t.equalities + 1 }
  else if operator = "<" ∨ operator = ">" ∨ operator = "<=" ∨ operator = ">=" then
    { t with ranges := t.ranges + 1 }
  else if operator = "LIKE" then { t with patterns := t.patterns + 1 }
  else t

/-- The exact product `0.1^equalities * 0.3^patterns * 0.5^ranges` is below `0.001`. -/
def Negligible (t : Tally) : Prop :=
  1000 * 3 ^ t.patterns < 10 ^ (t.equalities + t.patterns) * 2 ^ t.ranges

instance : Decidable t.Negligible :=
  inferInstanceAs (Decidable (_ < _))

/-- The tallies for which the product depends on the order of the factors. -/
def OrderSensitive (t : Tally) : Prop :=
  (t.equalities = 2 ∧ t.patterns = 1 ∨ t.equalities = 1 ∧ t.patterns = 3) ∧ t.ranges ≤ 1

instance : Decidable t.OrderSensitive :=
  inferInstanceAs (Decidable (_ ∧ _))

end Tally

/-- One operator of each kind. -/
def kinds : List String := ["=", "LIKE", "<"]

/-- An operator is like one of the three, or lets everything pass. -/
theorem operator_cases (operator : String) :
    (∃ kind ∈ kinds, operatorSelectivity operator = operatorSelectivity kind ∧
      ∀ t : Tally, t.after operator = t.after kind) ∨
    (operatorSelectivity operator = 1.0 ∧ ∀ t : Tally, t.after operator = t) := by
  by_cases h1 : operator = "="
  · exact .inl ⟨"=", by decide, by rw [h1], fun t => by rw [h1]⟩
  by_cases h2 : operator = "<" ∨ operator = ">" ∨ operator = "<=" ∨ operator = ">="
  · refine .inl ⟨"<", by decide, ?_, fun t => ?_⟩
    · rw [operatorSelectivity, if_neg h1, if_pos h2]
      rfl
    · rw [Tally.after, if_neg h1, if_pos h2]
      rfl
  by_cases h3 : operator = "LIKE"
  · exact .inl ⟨"LIKE", by decide, by rw [h3], fun t => by rw [h3]⟩
  · refine .inr ⟨?_, fun t => ?_⟩
    · rw [operatorSelectivity, if_neg h1, if_neg h2, if_neg h3]
    · rw [Tally.after, if_neg h1, if_neg h2, if_neg h3]

theorem tally_concat (filters : List Filter) (f : Filter) :
    tally (filters ++ [f]) = (tally filters).after f.operator := by
  unfold tally Tally.after
  simp only [List.countP_append, List.countP_singleton, decide_eq_true_eq, List.mem_cons,
    List.not_mem_nil, or_false]
  by_cases h1 : f.operator = "="
  · simp [h1]
  by_cases h2 : f.operator = "<" ∨ f.operator = ">" ∨ f.operator = "<=" ∨ f.operator = ">="
  · rcases h2 with h | h | h | h <;> simp [h]
  by_cases h3 : f.operator = "LIKE"
  · simp [h3]
  · simp [h1, h2, h3]

theorem tally_perm {filters others : List Filter} (h : filters.Perm others) :
    tally filters = tally others :=
  Tally.ext (h.countP_eq _) (h.countP_eq _) (h.countP_eq _)

/-! ## Products -/

/-- What one operator more makes of a tally and its product. -/
def successors (s : Tally × Float) : List (Tally × Float) :=
  kinds.map fun kind => (s.1.after kind, s.2 * operatorSelectivity kind)

/-- The tallies of `n` operators that are not negligible, each with the products that it can have. -/
def products : Nat → List (Tally × Float)
  | 0 => [({}, 1.0)]
  | n + 1 => (((products n).flatMap successors).filter (¬ ·.1.Negligible)).dedup

theorem products_spec : ∀ n < 10, ∀ s ∈ products n,
    minSelectivity < s.2 ∧ s.2 * 1.0 = s.2 ∧
    ∀ s' ∈ successors s, s'.1.Negligible → s'.2 < minSelectivity := by
  decide +kernel

/-- The products of one tally are neighbours among all doubles, and the same one but for the tallies
that are sensitive to the order. -/
theorem products_agree : ∀ n < 10, ∀ s ∈ products n, ∀ s' ∈ products n, s.1 = s'.1 →
    Neighbours s.2 s'.2 ∧ (¬ s.1.OrderSensitive → s.2 = s'.2) := by
  decide +kernel

theorem products_eq_nil (k : Nat) : products (10 + k) = [] := by
  induction k with
  | zero => decide +kernel
  | succ k ih => rw [← Nat.add_assoc, products, ih]; rfl

theorem lt_of_mem_products {n : Nat} {s : Tally × Float} (h : s ∈ products n) : n < 10 := by
  by_contra hn
  obtain ⟨k, rfl⟩ := Nat.exists_eq_add_of_le (not_lt.1 hn)
  rw [products_eq_nil] at h
  cases h

theorem mem_products_succ {n : Nat} {s s' : Tally × Float} (h : s ∈ products n)
    (hs : s' ∈ successors s) (hn : ¬ s'.1.Negligible) : s' ∈ products (n + 1) :=
  List.mem_dedup.2 (List.mem_filter.2 ⟨List.mem_flatMap.2 ⟨s, h, hs⟩, decide_eq_true hn⟩)

theorem Tally.Negligible.after {t : Tally} (h : t.Negligible) (operator : String) :
    (t.after operator).Negligible := by
  obtain ⟨equalities, patterns, ranges⟩ := t
  simp only [Negligible] at h
  unfold Tally.after Negligible
  split
  · dsimp only
    calc 1000 * 3 ^ patterns < 10 ^ (equalities + patterns) * 2 ^ ranges := h
      _ ≤ 10 ^ (equalities + 1 + patterns) * 2 ^ ranges :=
        Nat.mul_le_mul_right _ (Nat.pow_le_pow_right (by decide) (by omega))
  · split
    · dsimp only
      calc 1000 * 3 ^ patterns < 10 ^ (equalities + patterns) * 2 ^ ranges := h
        _ ≤ 10 ^ (equalities + patterns) * 2 ^ (ranges + 1) :=
          Nat.mul_le_mul_left _ (Nat.pow_le_pow_right (by decide) (by omega))
    · split
      · dsimp only
        rw [← Nat.add_assoc, Nat.pow_succ, Nat.pow_succ, Nat.mul_right_comm]
        omega
      · exact h

theorem Tally.total_after {t : Tally} {kind : String} (h : kind ∈ kinds) :
    (t.after kind).total = t.total + 1 := by
  simp only [kinds, List.mem_cons, List.not_mem_nil, or_false] at h
  rcases h with rfl | rfl | rfl <;> simp [after, total] <;> omega

theorem operatorSelectivity_bounds (operator : String) :
    (operatorSelectivity operator).isFinite = true ∧ 0 ≤ val (operatorSelectivity operator) ∧
      val (operatorSelectivity operator) ≤ 1 := by
  have hkinds : ∀ kind ∈ "" :: kinds, (operatorSelectivity kind).isFinite = true ∧
      0.0 ≤ operatorSelectivity kind ∧ operatorSelectivity kind ≤ 1.0 := by
    decide +kernel
  obtain ⟨kind, hk, hs⟩ : ∃ kind ∈ "" :: kinds,
      operatorSelectivity operator = operatorSelectivity kind := by
    rcases operator_cases operator with ⟨kind, hk, hs, -⟩ | ⟨hs, -⟩
    · exact ⟨kind, List.mem_cons_of_mem _ hk, hs⟩
    · exact ⟨"", List.mem_cons_self, hs⟩
  obtain ⟨hf, h0, h1⟩ := hkinds kind hk
  rw [le_iff_val_le val_zero.1 hf, val_zero.2] at h0
  rw [le_iff_val_le hf near_one.finite, near_one.val_eq] at h1
  rw [hs]
  exact ⟨hf, h0, h1⟩

/-- What is true of a product of filters with a tally: it is one of a few, or negligible. -/
structure Reached (t : Tally) (x : Float) : Prop where
  finite : x.isFinite = true
  nonneg : 0 ≤ val x
  cases : (t, x) ∈ products t.total ∨ t.Negligible ∧ x < minSelectivity

namespace Reached

variable {t : Tally} {x : Float}

/-- **One factor more.** -/
theorem step (h : Reached t x) (operator : String) :
    Reached (t.after operator) (x * operatorSelectivity operator) := by
  obtain ⟨hf, h0, h1⟩ := operatorSelectivity_bounds operator
  obtain ⟨hfin, hpos, hle⟩ := mul_le_left h.finite hf h.nonneg h0 h1
  refine ⟨hfin, hpos, ?_⟩
  rcases h.cases with hmem | ⟨hn, hlt⟩
  · obtain ⟨-, hone, hbelow⟩ := products_spec _ (lt_of_mem_products hmem) _ hmem
    rcases operator_cases operator with ⟨kind, hk, hs, ha⟩ | ⟨hs, ha⟩
    · rw [hs, ha]
      have hsucc : (t.after kind, x * operatorSelectivity kind) ∈ successors (t, x) :=
        List.mem_map.2 ⟨kind, hk, rfl⟩
      by_cases hn : (t.after kind).Negligible
      · exact .inr ⟨hn, hbelow (t.after kind, x * operatorSelectivity kind) hsucc hn⟩
      · rw [Tally.total_after hk]
        exact .inl (mem_products_succ hmem hsucc hn)
    · rw [hs, ha, hone]
      exact .inl hmem
  · refine .inr ⟨hn.after operator, ?_⟩
    have hmin : minSelectivity.isFinite = true := by decide +kernel
    rw [lt_iff_val_lt h.finite hmin] at hlt
    exact (lt_iff_val_lt hfin hmin).2 (hle.trans_lt hlt)

end Reached

/-- **The product of some filters.** -/
theorem reached_product (filters : List Filter) :
    Reached (tally filters) (product (filters.map fun f => operatorSelectivity f.operator)) := by
  induction filters using List.reverseRecOn with
  | nil =>
    refine ⟨near_one.finite, ?_, .inl List.mem_cons_self⟩
    exact near_one.val_eq.symm ▸ zero_le_one
  | append_singleton filters f ih =>
    have hp : product ((filters ++ [f]).map fun f => operatorSelectivity f.operator) =
        product (filters.map fun f => operatorSelectivity f.operator) *
          operatorSelectivity f.operator := by
      unfold product
      rw [List.map_append, List.foldl_append]
      rfl
    rw [tally_concat, hp]
    exact ih.step f.operator

/-! ## Orders of filters -/

variable {filters others : List Filter}

/-- **The fraction of rows that pass some filters** is one of the products of their tally, or the
least one. -/
theorem filterSelectivity_cases (filters : List Filter) :
    (tally filters, filterSelectivity filters) ∈ products (tally filters).total ∨
      (tally filters).Negligible ∧ filterSelectivity filters = minSelectivity := by
  have h := reached_product filters
  unfold filterSelectivity
  rw [atLeast_eq h.finite]
  rcases h.cases with hmem | ⟨hn, hlt⟩
  · have hlt := (products_spec _ (lt_of_mem_products hmem) _ hmem).1
    have hmin : minSelectivity.isFinite = true := by decide +kernel
    rw [lt_iff_val_lt hmin h.finite] at hlt
    rw [if_neg fun hge => lt_asymm hlt ((lt_iff_val_lt h.finite hmin).1 hge)]
    exact .inl hmem
  · exact .inr ⟨hn, if_pos hlt⟩

/-- A product that is left is not negligible. -/
theorem not_negligible_of_mem_products {n : Nat} {s : Tally × Float} (h : s ∈ products n) :
    ¬ s.1.Negligible := by
  cases n with
  | zero =>
    rw [List.mem_singleton.1 h]
    decide
  | succ n => exact of_decide_eq_true (List.mem_filter.1 (List.mem_dedup.1 h)).2

/-- **Filters in two orders** pass fractions that are neighbours at most, and the same one but for the
tallies that are sensitive to the order. -/
theorem filterSelectivity_of_perm (h : filters.Perm others) :
    Neighbours (filterSelectivity filters) (filterSelectivity others) ∧
      (¬ (tally filters).OrderSensitive → filterSelectivity filters = filterSelectivity others) := by
  have ht := tally_perm h
  have hy := filterSelectivity_cases others
  rw [← ht] at hy
  rcases filterSelectivity_cases filters with hx | ⟨hn, hx⟩
  · rcases hy with hy | ⟨hn, -⟩
    · exact products_agree _ (lt_of_mem_products hx) (tally filters, filterSelectivity filters) hx
        (tally filters, filterSelectivity others) hy rfl
    · exact absurd hn (not_negligible_of_mem_products hx)
  · rcases hy with hy | ⟨-, hy⟩
    · exact absurd hn (not_negligible_of_mem_products hy)
    · rw [hx, hy]
      exact ⟨⟨Nat.le_succ _, Nat.le_succ _⟩, fun _ => rfl⟩

/-! ## Orders that differ -/

/-- The factors of a tally, by kind. -/
def Tally.factors (t : Tally) : List Float :=
  List.replicate t.equalities (operatorSelectivity "=") ++
    (List.replicate t.patterns (operatorSelectivity "LIKE") ++
      List.replicate t.ranges (operatorSelectivity "<"))

theorem Tally.factors_after {t : Tally} {kind : String} (h : kind ∈ kinds) :
    (t.after kind).factors.Perm (operatorSelectivity kind :: t.factors) := by
  simp only [kinds, List.mem_cons, List.not_mem_nil, or_false] at h
  unfold factors after
  rcases h with rfl | rfl | rfl
  · exact .refl _
  · exact List.perm_middle
  · exact (List.Perm.append_left _ List.perm_middle).trans List.perm_middle

/-- The factors of some filters are those of their tally, and ones. -/
theorem factors_perm (filters : List Filter) :
    ∃ u, (filters.map fun f => operatorSelectivity f.operator).Perm
      ((tally filters).factors ++ List.replicate u 1.0) := by
  induction filters using List.reverseRecOn with
  | nil => exact ⟨0, .refl _⟩
  | append_singleton filters f ih =>
    obtain ⟨u, hu⟩ := ih
    have hu : ((filters ++ [f]).map fun f => operatorSelectivity f.operator).Perm
        (operatorSelectivity f.operator :: ((tally filters).factors ++ List.replicate u 1.0)) := by
      rw [List.map_append]
      exact (List.perm_append_singleton _ _).trans (hu.cons _)
    rw [tally_concat]
    rcases operator_cases f.operator with ⟨kind, hk, hs, ha⟩ | ⟨hs, ha⟩ <;> rw [hs] at hu <;> rw [ha]
    · exact ⟨u, hu.trans ((Tally.factors_after hk).symm.append_right _)⟩
    · exact ⟨u + 1, hu.trans List.perm_middle.symm⟩

/-- Where the order matters, the factors in ascending order give another product. -/
theorem product_reverse_ne {t : Tally} (h : t.OrderSensitive) :
    product t.factors * 1.0 = product t.factors ∧
      product t.factors.reverse * 1.0 = product t.factors.reverse ∧
      atLeast minSelectivity (product t.factors) ≠ atLeast minSelectivity (product t.factors.reverse) := by
  obtain ⟨equalities, patterns, ranges⟩ := t
  obtain ⟨⟨rfl, rfl⟩ | ⟨rfl, rfl⟩, hr⟩ := h <;>
    obtain rfl | rfl := Nat.le_one_iff_eq_zero_or_eq_one.1 hr <;>
    decide +kernel

theorem product_append_ones {xs : List Float} (h : product xs * 1.0 = product xs) (u : Nat) :
    product (xs ++ List.replicate u 1.0) = product xs := by
  unfold product at h ⊢
  rw [List.foldl_append]
  induction u with
  | zero => rfl
  | succ u ih => rw [List.replicate_succ, List.foldl_cons, h, ih]

/-- Some order of the filters has the given factors. -/
theorem exists_perm_filterSelectivity {xs : List Float} {u : Nat}
    (h : (xs ++ List.replicate u 1.0).Perm
      (filters.map fun f : Filter => operatorSelectivity f.operator))
    (h1 : product xs * 1.0 = product xs) :
    ∃ others : List Filter, others.Perm filters ∧
      filterSelectivity others = atLeast minSelectivity (product xs) := by
  obtain ⟨others, he, hp⟩ := (congrFun₂ (List.eq_map_comp_perm _) _ _).mpr h
  refine ⟨others, hp, ?_⟩
  rw [filterSelectivity, ← he, product_append_ones h1]

/-- **Where the order matters, some order gives another fraction.** -/
theorem exists_perm_filterSelectivity_ne (h : (tally filters).OrderSensitive) :
    ∃ others : List Filter, others.Perm filters ∧
      filterSelectivity others ≠ filterSelectivity filters := by
  obtain ⟨h1, h2, hne⟩ := product_reverse_ne h
  obtain ⟨u, hu⟩ := factors_perm filters
  obtain ⟨others₁, hp₁, he₁⟩ := exists_perm_filterSelectivity hu.symm h1
  obtain ⟨others₂, hp₂, he₂⟩ := exists_perm_filterSelectivity
    (((List.reverse_perm _).append_right _).trans hu.symm) h2
  rw [← he₁, ← he₂] at hne
  by_cases he : filterSelectivity others₁ = filterSelectivity filters
  · exact ⟨others₂, hp₂, fun h => hne (he.trans h.symm)⟩
  · exact ⟨others₁, hp₁, he⟩

end Heuristic

end QueryForecast
