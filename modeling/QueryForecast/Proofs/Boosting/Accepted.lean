import QueryForecast.Proofs.Boosting.Rounds

/-!
# What the checks of a fit ensure

* `Ensemble.rowsFault?_eq_none_iff` — no row has a fault exactly when all have the same width and hold
  finite numbers.
* `Ensemble.Accepted`, `Ensemble.matrixFault?_eq_none_iff` — what a fit accepts.
* `Ensemble.matrixFault?_eq_map` — what it finds in rows of one width.
* `Ensemble.trees_of_fit` — the trees of a fit are those that its rounds grow.
* `Ensemble.accepted_of_fit`, `Ensemble.Accepted.isFinite_at` — so every number that a fit compares is
  finite.
-/

namespace QueryForecast

/-- Settings without fault allow a leaf to be over one row, but not over none. -/
theorem Settings.minLeafRows_pos {s : Settings} (h : s.fault? = none) : 0 < s.minLeafRows := by
  refine Nat.pos_of_ne_zero fun h0 => ?_
  unfold Settings.fault? at h
  rw [if_pos h0] at h
  split_ifs at h

theorem Row.at_eq_getElem {row : Row} {column : Nat} (h : column < row.size) :
    row.at column = row[column] := by
  simp [Row.at, Array.getD, h]

namespace Ensemble

variable {settings : Settings} {rows : List Row} {targets : List Float}

theorem rowsFault?_eq_none_iff {width n : Nat} :
    rowsFault? width n rows = none ↔
      ∀ row ∈ rows, row.size = width ∧ row.all Float.isFinite = true := by
  induction rows generalizing n with
  | nil => simp [rowsFault?]
  | cons first rest ih =>
    unfold rowsFault?
    rw [List.forall_mem_cons]
    split
    · rename_i hw
      exact ⟨fun h => (Option.some_ne_none _ h).elim, fun h => absurd h.1.1 hw⟩
    · rename_i hw
      split
      · rename_i hf
        rw [ih]
        exact ⟨fun h => ⟨⟨by omega, hf⟩, h⟩, fun h => h.2⟩
      · rename_i hf
        exact ⟨fun h => (Option.some_ne_none _ h).elim, fun h => absurd h.1.2 hf⟩

/-- What a fit accepts: settings in their ranges, and at least one row, all of one width, with finite
numbers and a finite target each. -/
structure Accepted (settings : Settings) (rows : List Row) (targets : List Float) : Prop where
  settings : settings.fault? = none
  nonempty : rows ≠ []
  targetCount : rows.length = targets.length
  rows : ∀ row ∈ rows,
    row.size = (rows.head?.map Array.size).getD 0 ∧ row.all Float.isFinite = true
  targets : targets.all Float.isFinite = true

/-- **A fit accepts exactly the matrices in which no fault is found.** -/
theorem matrixFault?_eq_none_iff :
    matrixFault? settings rows targets = none ↔ Accepted settings rows targets := by
  unfold matrixFault?
  constructor
  · intro h
    split at h
    · cases h
    · rename_i hs
      split at h
      · cases h
      · split at h
        · cases h
        · rename_i hc
          split at h
          · cases h
          · rename_i hr
            split at h
            · rename_i ht
              exact ⟨hs, List.cons_ne_nil _ _, by omega, rowsFault?_eq_none_iff.1 hr, ht⟩
            · cases h
  · rintro ⟨hs, hn, hc, hr, ht⟩
    rw [hs]
    cases rows with
    | nil => exact absurd rfl hn
    | cons first rest =>
      have hf : rowsFault? first.size 0 (first :: rest) = none := rowsFault?_eq_none_iff.2 hr
      dsimp only
      rw [if_neg (by omega), hf]
      exact if_pos ht

/-- In rows of one width the first that is not finite is the fault. -/
theorem rowsFault?_eq_map {width : Nat} (h : ∀ row ∈ rows, row.size = width) (n : Nat) :
    rowsFault? width n rows =
      (rows.findIdx? fun row => !row.all Float.isFinite).map fun k => .notFinite (n + k) := by
  induction rows generalizing n with
  | nil => rfl
  | cons first rest ih =>
    rw [List.forall_mem_cons] at h
    unfold rowsFault?
    rw [if_neg (by simp [h.1]), List.findIdx?_cons]
    cases first.all Float.isFinite with
    | true =>
      simp only [if_true, Bool.not_true, Bool.false_eq_true, if_false]
      rw [ih h.2, Option.map_map]
      congr 1
      funext k
      exact congrArg MatrixFault.notFinite (show n + 1 + k = n + (k + 1) by omega)
    | false => rfl

/-- **All that can be wrong with rows of one width is a number that is not finite**, once the
settings and targets are fine. -/
theorem matrixFault?_eq_map {width : Nat} (hs : settings.fault? = none) (hn : rows ≠ [])
    (hc : rows.length = targets.length) (hw : ∀ row ∈ rows, row.size = width)
    (ht : targets.all Float.isFinite = true) :
    matrixFault? settings rows targets =
      (rows.findIdx? fun row => !row.all Float.isFinite).map .notFinite := by
  unfold matrixFault?
  rw [hs]
  cases rows with
  | nil => exact absurd rfl hn
  | cons first rest =>
    have hf := rowsFault?_eq_map hw 0
    dsimp only
    rw [if_neg (by omega), hw first List.mem_cons_self, hf]
    cases (first :: rest).findIdx? fun row => !row.all Float.isFinite with
    | none => exact if_pos ht
    | some k =>
      dsimp only [Option.map_some]
      rw [Nat.zero_add]

theorem accepted_of_fit {e : Ensemble} (h : fit settings rows targets = .ok e) :
    Accepted settings rows targets :=
  matrixFault?_eq_none_iff.1 (fit_eq_ok h).1

/-- The width of a fitted ensemble is that of its rows. -/
theorem width_of_fit {e : Ensemble} (h : fit settings rows targets = .ok e) :
    ∀ row ∈ rows, row.size = e.width := by
  intro row hm
  have hw := ((accepted_of_fit h).rows row hm).1
  obtain ⟨-, rfl⟩ := fit_eq_ok h
  exact hw

/-- The numbers in the columns of the rows are finite. -/
theorem Accepted.isFinite_at {row : Row} {column : Nat} (h : Accepted settings rows targets)
    (hr : row ∈ rows) (hc : column < row.size) : (row.at column).isFinite = true := by
  have ha := (h.rows row hr).2
  rw [Array.all_eq_true] at ha
  rw [Row.at_eq_getElem hc]
  exact ha column hc

/-! ## Trees of a fit -/

theorem length_predictions_beforeRound (h : Accepted settings rows targets) (n : Nat) :
    (beforeRound settings rows targets n).predictions.length = rows.length := by
  refine length_predictions_rounds ?_ n
  rw [h.targetCount]
  exact List.length_map _

theorem trees_of_fit {e : Ensemble} (h : fit settings rows targets = .ok e) :
    e.trees = (List.range settings.rounds).map fun n =>
      (grown settings e.width rows targets (beforeRound settings rows targets n)).toTree := by
  obtain ⟨-, rfl⟩ := fit_eq_ok h
  exact trees_rounds _ _

theorem length_trees_of_fit {e : Ensemble} (h : fit settings rows targets = .ok e) :
    e.trees.length = settings.rounds := by
  rw [trees_of_fit h, List.length_map, List.length_range]

/-- The trees of a fit are those that its rounds grow. -/
theorem tree_of_fit {e : Ensemble} (h : fit settings rows targets = .ok e) {n : Nat}
    (hn : n < settings.rounds) :
    e.trees[n]? =
      some (grown settings e.width rows targets (beforeRound settings rows targets n)).toTree := by
  rw [trees_of_fit h, List.getElem?_map, List.getElem?_range hn]
  rfl

end Ensemble

end QueryForecast
