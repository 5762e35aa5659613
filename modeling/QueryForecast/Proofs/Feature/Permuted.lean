import QueryForecast.Model.Basic
import QueryForecast.Proofs.Feature.Correlated
import QueryForecast.Proofs.Feature.Measured
import QueryForecast.Proofs.Feature.Tallied

/-!
# Filters in another order

A query's filters count, name columns and have operators; their order is looked at only in the product
of the operators' fractions. So the features of a query keep their values when its filters change
places, but for the fraction of rows that pass, where the order matters to the last rounding.

* `Query.usesIndex_perm`, `Query.correlation_perm`, `Query.complexity_perm` — the other features that
  look at the filters.
* `Query.get?_perm` — every feature but the fraction.
* `Query.cardinalityVector_reordered` — the vector of a query in two orders of its filters.
-/

namespace QueryForecast.Query

open Heuristic Numeric

variable {q : Query} {filters : List Filter}

theorem usesIndex_perm (h : filters.Perm q.filters) :
    usesIndex { q with filters := filters } = q.usesIndex := by
  unfold usesIndex
  dsimp only
  split
  · rfl
  · split
    · exact h.any_eq
    · rfl

theorem correlation_perm (h : filters.Perm q.filters) (known : Option Correlations) :
    correlation { q with filters := filters } known = q.correlation known := by
  cases known with
  | none => rfl
  | some c => exact Correlations.strongest_congr_columns fun _ => (h.map (·.column)).mem_iff

theorem complexity_perm (h : filters.Perm q.filters) :
    Heuristic.complexity { q with filters := filters } = Heuristic.complexity q := by
  unfold Heuristic.complexity
  rw [h.length_eq]

/-- The values of the features in another order of the filters. -/
theorem cardinalityValues_perm (h : filters.Perm q.filters) (known : Option Correlations) :
    cardinalityValues { q with filters := filters } known =
      (q.cardinalityValues known).set 4 (filterSelectivity filters) := by
  unfold cardinalityValues
  rw [usesIndex_perm h, correlation_perm h, complexity_perm h, h.length_eq]
  rfl

theorem names_cardinalityVector (q : Query) (known : Option Correlations) :
    (q.cardinalityVector known).names = cardinalityFeatures := by
  rw [FeatureVector.names, entries_cardinalityVector, map_fst_zip rfl]

theorem get?_filterSelectivity (q : Query) (known : Option Correlations) :
    (q.cardinalityVector known).get? "filter_selectivity" = some (filterSelectivity q.filters) := by
  rw [FeatureVector.get?_eq_some_iff, entries_cardinalityVector]
  simp [cardinalityFeatures, cardinalityValues]

/-- **No feature but the fraction of rows that pass depends on the order of the filters.** -/
theorem get?_perm (h : filters.Perm q.filters) (known : Option Correlations) {name : String}
    (hn : name ≠ "filter_selectivity") :
    (cardinalityVector { q with filters := filters } known).get? name =
      (q.cardinalityVector known).get? name := by
  unfold FeatureVector.get?
  rw [entries_cardinalityVector, entries_cardinalityVector, cardinalityValues_perm h]
  simp only [cardinalityFeatures, cardinalityValues, List.set_cons_succ, List.set_cons_zero,
    List.zip_cons_cons, List.lookup_cons, beq_false_of_ne hn]

/-- When the fraction is the same, so is the vector. -/
theorem cardinalityVector_perm (h : filters.Perm q.filters) (known : Option Correlations)
    (hs : filterSelectivity filters = filterSelectivity q.filters) :
    cardinalityVector { q with filters := filters } known = q.cardinalityVector known := by
  unfold cardinalityVector
  rw [cardinalityValues_perm h, hs]
  rfl

theorem filterSelectivity_eq_of_vector_eq {filters others : List Filter}
    {known : Option Correlations}
    (h : cardinalityVector { q with filters := filters } known =
      cardinalityVector { q with filters := others } known) :
    filterSelectivity filters = filterSelectivity others := by
  have hg := get?_filterSelectivity { q with filters := filters } known
  rw [h, get?_filterSelectivity] at hg
  exact (Option.some.inj hg).symm

/-- **The vector of a query in two orders of its filters.** No other feature than the fraction of rows
that pass the filters depends on the order, and this one not by more than the last place. For all
operators but two equalities and a pattern, or an equality and three patterns, with one range at most,
it is the same as well, so every model gives the same estimate. For these the order does matter. -/
theorem cardinalityVector_reordered (q : Query) (known : Option Correlations) {filters : List Filter}
    (h : filters.Perm q.filters) :
    let reordered : Query := { q with filters := filters }
    (reordered.cardinalityVector known).names = (q.cardinalityVector known).names ∧
    (∀ name, name ≠ "filter_selectivity" →
      (reordered.cardinalityVector known).get? name = (q.cardinalityVector known).get? name) ∧
    (∃ x y, (reordered.cardinalityVector known).get? "filter_selectivity" = some x ∧
      (q.cardinalityVector known).get? "filter_selectivity" = some y ∧ Neighbours x y) ∧
    (¬ (tally q.filters).OrderSensitive →
      reordered.cardinalityVector known = q.cardinalityVector known ∧
      ∀ m : Model, m.estimate (reordered.cardinalityVector known) =
        m.estimate (q.cardinalityVector known)) ∧
    ((tally q.filters).OrderSensitive → ∃ others : List Filter, others.Perm q.filters ∧
      cardinalityVector { q with filters := others } known ≠ q.cardinalityVector known) := by
  intro reordered
  obtain ⟨hn, he⟩ := filterSelectivity_of_perm h
  rw [tally_perm h] at he
  refine ⟨?_, fun name hname => get?_perm h known hname,
    ⟨_, _, get?_filterSelectivity _ _, get?_filterSelectivity _ _, hn⟩, fun hs => ?_, fun hs => ?_⟩
  · rw [names_cardinalityVector, names_cardinalityVector]
  · have hv : reordered.cardinalityVector known = q.cardinalityVector known :=
      cardinalityVector_perm h known (he hs)
    exact ⟨hv, fun m => congrArg m.estimate hv⟩
  · obtain ⟨others, hp, hne⟩ := exists_perm_filterSelectivity_ne hs
    exact ⟨others, hp, fun hv => hne (filterSelectivity_eq_of_vector_eq hv)⟩

/-- Two columns that are compared for equality, and one that matches a pattern. -/
def patternQuery : Query where
  filters := [⟨"city", "=", .null⟩, ⟨"name", "LIKE", .null⟩, ⟨"year", "=", .null⟩]

/-- Two equalities in a row and then the pattern give a fraction that is larger by the last place. -/
theorem exists_reordered_vector_ne :
    [⟨"city", "=", .null⟩, ⟨"year", "=", .null⟩, ⟨"name", "LIKE", .null⟩].Perm
        patternQuery.filters ∧
      (patternQuery.cardinalityVector none).get? "filter_selectivity" = some 0.003 ∧
      cardinalityVector { patternQuery with
          filters := [⟨"city", "=", .null⟩, ⟨"year", "=", .null⟩, ⟨"name", "LIKE", .null⟩] } none ≠
        patternQuery.cardinalityVector none := by
  exact ⟨.cons _ (.swap _ _ _), by decide +kernel, fun hv =>
    absurd (filterSelectivity_eq_of_vector_eq hv) (by decide +kernel)⟩

/-- A range and a pattern on correlated columns, in both orders. -/
theorem cardinalityVector_reordered_of_pair :
    let known := Correlations.ofList [("price", "name", -0.75)]
    let q : Query := { filters := [⟨"price", "<", .null⟩, ⟨"name", "LIKE", .null⟩] }
    let reordered : Query := { q with filters := [⟨"name", "LIKE", .null⟩, ⟨"price", "<", .null⟩] }
    reordered.filters.Perm q.filters ∧ ¬ (tally q.filters).OrderSensitive ∧
      (q.cardinalityVector (some known)).get? "correlated_columns" = some 0.75 ∧
      reordered.cardinalityVector (some known) = q.cardinalityVector (some known) := by
  intro known q reordered
  have h : reordered.filters.Perm q.filters := .swap _ _ _
  have hs : ¬ (tally q.filters).OrderSensitive := by decide
  exact ⟨h, hs, by decide +kernel,
    ((cardinalityVector_reordered q (some known) h).2.2.2.1 hs).1⟩

end QueryForecast.Query
