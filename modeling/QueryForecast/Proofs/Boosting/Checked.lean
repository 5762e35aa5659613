import QueryForecast.Boosting.Ensemble
import QueryForecast.Proofs.Boosting.Routing
import QueryForecast.Proofs.Numeric.Defined

/-!
# What the check of an ensemble ensures

* `Node.Sound`, `RegressionTree.WellFormed`, `Ensemble.WellFormed` — what the checks look for.
* `RegressionTree.fault?_eq_none_iff`, `Ensemble.fault?_eq_none_iff` — no fault is found exactly in
  what is well-formed.
* `RegressionTree.WellFormed.lands` — every row reaches a leaf, and the number there is finite.
* `Ensemble.WellFormed.isNaN_predict` — the score of every row is defined.
-/

namespace QueryForecast

open Numeric

/-- A node fits into a tree of `size` nodes for rows of `width` columns, at the given index. -/
def Node.Sound (size width index : Nat) : Node → Prop
  | .split column threshold below above =>
    column < width ∧ threshold.isNaN = false ∧ (index < below ∧ below < size) ∧
      index < above ∧ above < size
  | .leaf value => value.isFinite = true

namespace RegressionTree

/-- There is a root, and every node fits. -/
structure WellFormed (t : RegressionTree) (width : Nat) : Prop where
  size_pos : 0 < t.nodes.size
  sound : ∀ (i : Nat) (node : Node), t.nodes[i]? = some node → node.Sound t.nodes.size width i

theorem nodeFault?_eq_none_iff {size width index : Nat} {node : Node} :
    nodeFault? size width index node = none ↔ node.Sound size width index := by
  cases node with
  | leaf value =>
    simp only [nodeFault?, Node.Sound]
    cases value.isFinite <;> simp
  | split column threshold below above =>
    simp only [nodeFault?, Node.Sound]
    constructor
    · intro h
      split at h
      · cases h
      split at h
      · cases h
      split at h
      · cases h
      split at h
      · cases h
      rename_i hc ht hb ha
      exact ⟨by omega, by simpa using ht, by omega, by omega⟩
    · rintro ⟨hc, ht, hb, ha⟩
      rw [if_neg (by omega), if_neg (by rw [ht]; decide), if_neg (by omega), if_neg (by omega)]

theorem nodesFault?_eq_none_iff {size width index : Nat} {nodes : List Node} :
    nodesFault? size width index nodes = none ↔
      ∀ (i : Nat) (node : Node), nodes[i]? = some node → node.Sound size width (index + i) := by
  induction nodes generalizing index with
  | nil => simp [nodesFault?]
  | cons first rest ih =>
    unfold nodesFault?
    constructor
    · intro h
      split at h
      · cases h
      · rename_i hf
        intro i node hi
        cases i with
        | zero =>
          cases hi
          exact nodeFault?_eq_none_iff.1 hf
        | succ i =>
          have hs := ih.1 h i node hi
          rwa [show index + 1 + i = index + (i + 1) by omega] at hs
    · intro h
      have h0 : nodeFault? size width index first = none := nodeFault?_eq_none_iff.2 (h 0 first rfl)
      rw [h0]
      refine ih.2 fun i node hi => ?_
      have hs := h (i + 1) node hi
      rwa [show index + (i + 1) = index + 1 + i by omega] at hs

/-- **The check of a tree finds a fault exactly when the tree is not well-formed.** -/
theorem fault?_eq_none_iff {t : RegressionTree} {width : Nat} :
    t.fault? width = none ↔ t.WellFormed width := by
  have hn : (∀ (i : Nat) (node : Node), t.nodes.toList[i]? = some node →
        node.Sound t.nodes.size width (0 + i)) ↔
      ∀ (i : Nat) (node : Node), t.nodes[i]? = some node → node.Sound t.nodes.size width i := by
    simp [Array.getElem?_toList]
  unfold fault?
  split
  · rename_i he
    refine ⟨fun h => (Option.some_ne_none _ h).elim, fun h => ?_⟩
    have hp := h.size_pos
    rw [Array.isEmpty_iff.1 he] at hp
    exact absurd hp (by decide)
  · rename_i he
    rw [nodesFault?_eq_none_iff, hn]
    refine ⟨fun h => ⟨?_, h⟩, fun h => h.sound⟩
    exact Nat.pos_of_ne_zero fun h0 => he (by simpa [Array.isEmpty] using h0)

namespace WellFormed

variable {t : RegressionTree} {width : Nat}

theorem linked (h : t.WellFormed width) : t.Linked := by
  intro i column threshold below above hi
  obtain ⟨-, -, hb, ha⟩ := h.sound i _ hi
  exact ⟨hb, ha⟩

/-- Every row reaches a leaf, and the number there is finite. -/
theorem lands (h : t.WellFormed width) (row : Row) :
    ∃ i v, t.leafOf? row = some i ∧ t.nodes[i]? = some (.leaf v) ∧ t.predict row = v ∧
      v.isFinite = true := by
  obtain ⟨i, v, hi, hv, hp⟩ := h.linked.lands h.size_pos row
  exact ⟨i, v, hi, hv, hp, h.sound i _ hv⟩

theorem isFinite_predict (h : t.WellFormed width) (row : Row) :
    (t.predict row).isFinite = true := by
  obtain ⟨i, v, -, -, hp, hf⟩ := h.lands row
  rw [hp]
  exact hf

end WellFormed

end RegressionTree

namespace Ensemble

/-- The base score is finite, every column has a gain, and every tree is well-formed. -/
structure WellFormed (e : Ensemble) : Prop where
  baseScore : e.baseScore.isFinite = true
  columnGain : e.columnGain.length = e.width
  trees : ∀ t ∈ e.trees, t.WellFormed e.width

theorem treesFault?_eq_none_iff {width n : Nat} {trees : List RegressionTree} :
    treesFault? width n trees = none ↔ ∀ t ∈ trees, t.WellFormed width := by
  induction trees generalizing n with
  | nil => simp [treesFault?]
  | cons first rest ih =>
    unfold treesFault?
    rw [List.forall_mem_cons, ← ih (n := n + 1), ← RegressionTree.fault?_eq_none_iff]
    cases first.fault? width <;> simp

/-- **The check of an ensemble finds a fault exactly when it is not well-formed.** -/
theorem fault?_eq_none_iff {e : Ensemble} : e.fault? = none ↔ e.WellFormed := by
  unfold fault?
  constructor
  · intro h
    split at h
    · cases h
    · rename_i hb
      split at h
      · cases h
      · rename_i hg
        exact ⟨by simpa using hb, by omega, treesFault?_eq_none_iff.1 h⟩
  · rintro ⟨hb, hg, ht⟩
    rw [if_neg (by simp [hb]), if_neg (by omega)]
    exact treesFault?_eq_none_iff.2 ht

/-- **The score of a well-formed ensemble is defined** for every row: the numbers at the leaves are
finite, so no opposite infinities meet in their sum. -/
theorem WellFormed.isNaN_predict {e : Ensemble} (h : e.WellFormed) (row : Row) :
    (e.predict row).isNaN = false := by
  refine isNaN_finite_add h.baseScore (isNaN_sum fun x hx => ?_)
  obtain ⟨t, ht, rfl⟩ := List.mem_map.1 hx
  exact (h.trees t ht).isFinite_predict row

end Ensemble

end QueryForecast
