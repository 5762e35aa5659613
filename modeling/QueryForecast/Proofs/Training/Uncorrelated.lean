import QueryForecast.Proofs.Training.Served

/-!
# Models do not depend on correlations

A run trains without coefficients: the strongest correlation is zero in every row, so no tree splits on
its column. A model that it hands out is served with whatever coefficients are known by then, and gives
the estimates that it would give without them.

* `Query.get?_cardinalityVector` — known coefficients change one value of a vector.
* `TrainingPlan.unvaried_columns_are_ignored` — ensembles ignore the columns in which their rows agree,
  and row count models the coefficients.
-/

namespace QueryForecast

open Time

namespace Query

/-- The vector of a query without coefficients. -/
theorem get?_correlated (q : Query) :
    (q.cardinalityVector none).get? "correlated_columns" = some 0.0 := by
  rw [FeatureVector.get?_eq_some_iff, entries_cardinalityVector]
  simp [cardinalityFeatures, cardinalityValues, correlation]

/-- **Known coefficients change no value but that of the strongest correlation.** -/
theorem get?_cardinalityVector (q : Query) (known : Option Correlations) {name : String}
    (h : name ≠ "correlated_columns") :
    (q.cardinalityVector known).get? name = (q.cardinalityVector none).get? name := by
  unfold FeatureVector.get?
  rw [entries_cardinalityVector, entries_cardinalityVector]
  simp only [cardinalityFeatures, cardinalityValues, List.zip_cons_cons, List.lookup_cons,
    beq_false_of_ne h]

end Query

namespace TrainingPlan

/-- **What does not vary is not looked at.** An ensemble ignores every column in which the rows that it
was fitted to agree. So a model for row counts that a run hands out gives a query the same estimate
whether or not its vector is made with known coefficients. -/
theorem unvaried_columns_are_ignored :
    (∀ (settings : Settings) (rows : List Row) (targets : List Float) (e : Ensemble) (j : Nat),
      Ensemble.fit settings rows targets = .ok e → Unvaried rows j → e.Ignores j) ∧
    ∀ (plan : TrainingPlan) (records : List ExecutionRecord) (now : Timestamp) (model : Model)
      (report : TrainingReport), plan.target = .cardinality →
      plan.train records now = .ok (model, report) →
      ∀ (q : Query) (known : Correlations),
        model.estimate (q.cardinalityVector (some known)) =
          model.estimate (q.cardinalityVector none) := by
  constructor
  · intro settings rows targets e j hfit hj
    exact Ensemble.ignores_of_fit hfit hj
  · intro plan records now model report ht h q known
    obtain ⟨s, e, hl⟩ := learned_of_train h
    have hr : ∀ r ∈ plan.usable records,
        (r.1.query.vector plan.target none).get? "correlated_columns" = some 0.0 := by
      intro r _
      rw [ht]
      exact r.1.query.get?_correlated
    apply hl.estimate_congr_of_unvaried (by decide) hr
    intro other ho
    exact q.get?_cardinalityVector _ ho

/-- A query with two filtered columns. -/
def pairQuery : Query where
  filters := [⟨"price", ">", .null⟩, ⟨"region", "=", .null⟩]

/-- Four queries that differ in their filters, and what they returned. -/
def filteredRecords : List ExecutionRecord :=
  [.ofCardinality {} 1000.0, .ofCardinality pairQuery 50.0, .ofCardinality {} 900.0,
    .ofCardinality pairQuery 40.0]

/-- A plan for row counts that trains on any two records. -/
def countPlan : TrainingPlan where
  target := .cardinality
  minRecords := 2
  heldOutFraction := 0.5
  settings := { rounds := 2, rowFraction := 1.0, columnFraction := 1.0 }

/-- A run over these records goes through. -/
theorem exists_train_filteredRecords : ∃ model report,
    countPlan.train filteredRecords (.ofParts 19783 0 0) = .ok (model, report) := by
  have hf : countPlan.fault? = none := by decide +kernel
  have hn : countPlan.requiredRecords ≤ (countPlan.usable filteredRecords).length := by
    decide +kernel
  have ha : ∀ r ∈ filteredRecords, r.query.Addressable := by
    intro r hr
    simp only [filteredRecords, List.mem_cons, List.not_mem_nil, or_false] at hr
    rcases hr with rfl | rfl | rfl | rfl <;> constructor <;> decide
  exact exists_train_eq hf hn (fun _ => ha) (by decide +kernel) _

/-- Four rows that agree in their second column; and a model of four queries that is served with a
coefficient. -/
theorem unvaried_columns_are_ignored_of_four_rows :
    (∃ e, Ensemble.fit { rounds := 2, rowFraction := 1.0 }
        [#[0.0, 7.0], #[1.0, 7.0], #[2.0, 7.0], #[3.0, 7.0]] [1.0, 1.0, 3.0, 3.0] = .ok e ∧
      e.Ignores 1) ∧
    ∃ model report,
      countPlan.train filteredRecords (.ofParts 19783 0 0) = .ok (model, report) ∧
      pairQuery.correlation (some (.ofList [("price", "region", 0.9)])) = 0.9 ∧
      model.estimate (pairQuery.cardinalityVector (some (.ofList [("price", "region", 0.9)]))) =
        model.estimate (pairQuery.cardinalityVector none) := by
  have he := Ensemble.fit_of_matrixFault? (show Ensemble.matrixFault?
    { rounds := 2, rowFraction := 1.0 } [#[0.0, 7.0], #[1.0, 7.0], #[2.0, 7.0], #[3.0, 7.0]]
    [1.0, 1.0, 3.0, 3.0] = none by decide +kernel)
  have hj : Unvaried [#[0.0, 7.0], #[1.0, 7.0], #[2.0, 7.0], #[3.0, 7.0]] 1 := by
    unfold Unvaried
    decide +kernel
  obtain ⟨model, report, h⟩ := exists_train_filteredRecords
  exact ⟨⟨_, he, unvaried_columns_are_ignored.1 _ _ _ _ 1 he hj⟩, model, report, h,
    by decide +kernel, unvaried_columns_are_ignored.2 _ _ _ _ _ rfl h _ _⟩

end TrainingPlan

end QueryForecast
