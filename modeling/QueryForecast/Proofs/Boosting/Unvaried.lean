import QueryForecast.Proofs.Boosting.Arranged
import QueryForecast.Proofs.Boosting.Separating

/-!
# Columns that do not vary

A split stands between two different values of its column. So a column in which all rows of a matrix
agree is never split on, whatever rows and columns a round samples, and what a served row has there is
never looked at.

* `Unvaried` — some rows agree in a column.
* `Split.column_ne_of_find?` — the split of a node is on another column.
* `Growth.column_ne_of_mem_splits` — and so are all splits of a tree.
* `RegressionTree.Skips`, `RegressionTree.predict_congr` — a tree without splits on a column takes rows
  that differ only there to the same leaf.
* `Ensemble.Ignores`, `Ensemble.ignores_of_fit` — a fitted ensemble ignores the columns in which the
  rows that it was fitted to agree.
-/

namespace QueryForecast

open Numeric

/-- Some rows have the same value in a column. -/
def Unvaried (rows : List Row) (column : Nat) : Prop :=
  ∀ row ∈ rows, ∀ row' ∈ rows, (row.at column == row'.at column) = true

/-! ## Splits -/

namespace Split

variable {settings : Settings} {rows : List Row} {samples : List Sample} {total : Float} {j : Nat}
  {c : Candidate}

/-- There is no place for a split between equal values. -/
theorem ne_of_onColumn? {column : Nat} (h : onColumn? settings samples total column = some c)
    (hs : ∀ s ∈ samples, s.row ∈ rows) (hj : Unvaried rows j) : column ≠ j := by
  rintro rfl
  obtain hc | ⟨before, p, q, after, he, hne, -⟩ := Scan.of_mem_run (Option.mem_def.2 h)
  · cases hc
  have hp : p ∈ points column samples := by simp [he]
  have hq : q ∈ points column samples := by simp [he]
  obtain ⟨s, hm, hp⟩ := exists_sample_of_mem_points hp
  obtain ⟨s', hm', hq⟩ := exists_sample_of_mem_points hq
  rw [← hp, ← hq, hj _ (hs s hm) _ (hs s' hm')] at hne
  cases hne

/-- **The split of a node is on a column that varies.** -/
theorem column_ne_of_find? {columns : List Nat}
    (h : find? settings columns samples total = some c) (hs : ∀ s ∈ samples, s.row ∈ rows)
    (hj : Unvaried rows j) : c.column ≠ j := by
  obtain ⟨column, -, hc⟩ := List.mem_filterMap.1 (Candidate.best?_mem h)
  rw [column_onColumn? hc]
  exact ne_of_onColumn? hc hs hj

end Split

/-- The splits of a growing tree are on columns that vary. -/
theorem Growth.column_ne_of_mem_splits {settings : Settings} {columns : List Nat} {depth : Nat}
    {rows : List Row} {samples : List Sample} {j : Nat} {c : Candidate}
    (h : c ∈ (grow settings columns depth samples).splits) (hs : ∀ s ∈ samples, s.row ∈ rows)
    (hj : Unvaried rows j) : c.column ≠ j :=
  forall_splits
    (fun _ _ _ hsub hc => Split.column_ne_of_find? hc (fun s hm => hs s (hsub hm)) hj) c h

/-! ## Trees -/

namespace RegressionTree

/-- No node of a tree splits on a column. -/
def Skips (t : RegressionTree) (column : Nat) : Prop :=
  ∀ (i : Nat) (threshold : Float) (below above : Nat),
    t.nodes[i]? ≠ some (.split column threshold below above)

variable {t : RegressionTree} {j : Nat} {row row' : Row}

theorem walk_congr (ht : t.Skips j) (h : ∀ k ≠ j, row.at k = row'.at k) (fuel index : Nat) :
    t.walk row fuel index = t.walk row' fuel index := by
  induction fuel generalizing index with
  | zero => rfl
  | succ fuel ih =>
    unfold walk
    cases hn : t.nodes[index]? with
    | none => rfl
    | some node =>
      cases node with
      | leaf value => rfl
      | split column threshold below above =>
        have hc : column ≠ j := by
          rintro rfl
          exact ht _ _ _ _ hn
        dsimp only
        rw [h column hc, ih]

/-- **A tree that does not split on a column does not look at it.** -/
theorem predict_congr (ht : t.Skips j) (h : ∀ k ≠ j, row.at k = row'.at k) :
    t.predict row = t.predict row' :=
  walk_congr ht h _ _

end RegressionTree

theorem Growth.skips_toTree {t : Growth} {j : Nat} (h : ∀ c ∈ t.splits, c.column ≠ j) :
    t.toTree.Skips j := by
  intro i threshold below above hi
  obtain ⟨c, hc, he, -⟩ := test_mem_splits hi
  exact h c hc he

/-! ## Ensembles -/

namespace Ensemble

variable {settings : Settings} {width : Nat} {rows : List Row} {targets : List Float} {j : Nat}

/-- **An ensemble ignores a column.** -/
structure Ignores (e : Ensemble) (column : Nat) : Prop where
  /-- No tree splits on it. -/
  trees : ∀ t ∈ e.trees, t.Skips column
  /-- Nothing was gained on it. -/
  gain : column < e.width → e.columnGain[column]? = some 0.0
  /-- Rows that differ only there have the same score. -/
  predict : ∀ row row' : Row, (∀ k ≠ column, row.at k = row'.at k) → e.predict row = e.predict row'

theorem predict_congr {e : Ensemble} {row row' : Row} (ht : ∀ t ∈ e.trees, t.Skips j)
    (h : ∀ k ≠ j, row.at k = row'.at k) : e.predict row = e.predict row' := by
  unfold predict
  rw [List.map_congr_left fun t hm => RegressionTree.predict_congr (ht t hm) h]

theorem getElem?_addGains {gains : List Float} {splits : List Candidate}
    (h : ∀ c ∈ splits, c.column ≠ j) : (addGains gains splits)[j]? = gains[j]? := by
  unfold addGains
  induction splits generalizing gains with
  | nil => rfl
  | cons c splits ih =>
    rw [List.forall_mem_cons] at h
    rw [List.foldl_cons, ih h.2, List.getElem?_modify_ne _ _ h.1]

/-- The samples of a round are made of the rows. -/
theorem row_mem_of_mem_pick {predictions : List Float} {positions : List Nat} {s : Sample}
    (h : s ∈ pick (residualSamples rows targets predictions) positions) : s.row ∈ rows := by
  obtain ⟨i, -, hi⟩ := List.mem_filterMap.1 h
  rw [List.getElem?_toArray] at hi
  obtain ⟨⟨row, target, prediction⟩, hm, rfl⟩ := List.mem_map.1 (List.mem_of_getElem? hi)
  exact (List.of_mem_zip hm).1

/-- The tree of a round splits on columns that vary. -/
theorem column_ne_of_mem_grown {p : Progress} {c : Candidate} (hj : Unvaried rows j)
    (h : c ∈ (grown settings width rows targets p).splits) : c.column ≠ j :=
  Growth.column_ne_of_mem_splits h (fun _ => row_mem_of_mem_pick) hj

/-- What a fit keeps round by round about a column that does not vary. -/
structure Untouched (p : Progress) (column : Nat) (gain : Option Float) : Prop where
  trees : ∀ t ∈ p.trees, t.Skips column
  gain : p.columnGain[column]? = gain

theorem Untouched.round {p : Progress} {gain : Option Float} (hj : Unvaried rows j)
    (h : Untouched p j gain) : Untouched (round settings width rows targets p) j gain := by
  have hc : ∀ c ∈ (grown settings width rows targets p).splits, c.column ≠ j :=
    fun _ => column_ne_of_mem_grown hj
  rw [round_eq]
  refine ⟨fun t ht => ?_, (getElem?_addGains hc).trans h.gain⟩
  rcases List.mem_append.1 ht with ht | ht
  · exact h.trees t ht
  · rw [List.mem_singleton.1 ht]
    exact Growth.skips_toTree hc

theorem Untouched.rounds {p : Progress} {gain : Option Float} (hj : Unvaried rows j)
    (h : Untouched p j gain) (n : Nat) :
    Untouched (rounds settings width rows targets n p) j gain := by
  induction n generalizing p with
  | zero => exact h
  | succ n ih => exact ih (h.round hj)

/-- **A fitted ensemble ignores every column in which its rows agree.** -/
theorem ignores_of_fit {e : Ensemble} (h : fit settings rows targets = .ok e)
    (hj : Unvaried rows j) : e.Ignores j := by
  obtain ⟨-, rfl⟩ := fit_eq_ok h
  have hs (width : Nat) : Untouched (start settings width targets) j
      (List.replicate width 0.0)[j]? := by
    constructor
    · simp [start]
    · rfl
  have hu : Untouched (beforeRound settings rows targets settings.rounds) j
      (List.replicate (fitMatrix settings rows targets).width 0.0)[j]? :=
    Untouched.rounds hj (hs _) _
  constructor
  · exact hu.trees
  · intro hw
    rw [List.getElem?_replicate, if_pos hw] at hu
    exact hu.gain
  · intro row row' hr
    exact predict_congr hu.trees hr

end Ensemble

end QueryForecast
