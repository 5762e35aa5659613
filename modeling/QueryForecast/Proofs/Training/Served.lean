import QueryForecast.Proofs.Boosting.Unvaried
import QueryForecast.Proofs.Training.Fitting

/-!
# What a trained model looks at

A model that a run hands out has seen the rows of the training part, aligned to the names of all
usable records. What a vector has under other names is dropped when it is aligned.

* `Model.estimate_congr` — vectors with the same score have the same estimate.
* `TrainingPlan.Learned`, `TrainingPlan.learned_of_train` — the columns and the trees of a model that a
  run hands out, in terms of its records.
* `TrainingPlan.Learned.estimate_congr` — its estimate for a vector depends only on the values of names
  that the usable records have.
* `TrainingPlan.Learned.estimate_congr_of_unvaried` — and not on those under which all of them agree.
-/

namespace QueryForecast

open Time

namespace Model

variable {m : Model} {s : Schema} {e : Ensemble} {v w : FeatureVector}

/-- Vectors with the same score have the same estimate. -/
theorem estimate_congr (hs : m.schema = some s) (he : m.ensemble = some e)
    (h : e.predict (s.align v).toArray = e.predict (s.align w).toArray) :
    m.estimate v = m.estimate w := by
  have hf : m.fitted = if m.trained then .ok (s, e) else .error .notTrained := by
    unfold fitted fitted?
    rw [hs, he]
    cases m.trained <;> rfl
  unfold estimate estimateRow score
  rw [hf]
  split
  · simp only [bind, Except.bind, h]
  · simp only [bind, Except.bind]

end Model

namespace TrainingPlan

variable {plan : TrainingPlan} {records : List ExecutionRecord} {now : Timestamp} {model : Model}
  {report : TrainingReport} {s : Schema} {e : Ensemble}

/-- Enough usable records without undefined or infinite features are trained on. -/
theorem exists_train_eq (h : plan.fault? = none)
    (hn : plan.requiredRecords ≤ (plan.usable records).length)
    (ha : plan.target = .cardinality → ∀ r ∈ records, r.query.Addressable)
    (hm : (plan.trainingPart records).findIdx? (fun r => !r.1.query.isMeasured plan.target) = none)
    (now : Timestamp) : ∃ model report, plan.train records now = .ok (model, report) := by
  obtain ⟨s, hs, -, -⟩ := Dataset.exists_ofRecords_eq plan.target (plan.usable records)
  have ht := train_eq h hn ha hs now
  rw [hm] at ht
  exact ⟨_, _, ht⟩

/-- **What a run has learned**: the columns and the trees of the model that it hands out. -/
structure Learned (plan : TrainingPlan) (records : List ExecutionRecord) (model : Model)
    (s : Schema) (e : Ensemble) : Prop where
  schema : model.schema = some s
  ensemble : model.ensemble = some e
  /-- The columns are the base features and the names of all usable records. -/
  names : ∀ name, name ∈ s.names ↔ name ∈ plan.target.baseFeatures ∨
    ∃ r ∈ plan.usable records, name ∈ (r.1.query.vector plan.target none).names
  /-- The trees are fitted to the rows of the training part. -/
  fit : Ensemble.fit plan.settings ((plan.trainingPart records).map (plan.rowOf s))
    ((plan.trainingPart records).map fun r => plan.target.toScore r.2) = .ok e

/-- **A run that goes through has learned from its usable records.** -/
theorem learned_of_train (h : plan.train records now = .ok (model, report)) :
    ∃ s e, plan.Learned records model s e := by
  obtain ⟨s, hs, -, hd⟩ := Dataset.exists_ofRecords_eq plan.target (plan.usable records)
  obtain ⟨s', hs', hn⟩ := Schema.exists_ofVectors_eq plan.target.baseFeatures
    (by cases plan.target <;> decide) (by cases plan.target <;> decide)
    ((plan.usable records).map fun r => r.1.query.vector plan.target none)
  cases hs.symm.trans hs'
  obtain ⟨-, d, he, h⟩ := train_eq_ok h
  rw [hd] at he
  cases he
  obtain ⟨e, quality, hfit, -, rfl⟩ := fitDataset_eq_ok (divide_usable plan records s) h
  refine ⟨s, e, rfl, rfl, fun name => ?_, ?_⟩
  · rw [Schema.mem_names_ofVectors hn]
    simp
  · rw [rows_examples, outcomes_examples, List.map_map] at hfit
    exact hfit

namespace Learned

variable {v w : FeatureVector}

/-- **The estimate of a trained model depends on known names only.** -/
theorem estimate_congr (h : plan.Learned records model s e)
    (hv : ∀ name ∈ s.names, v.get? name = w.get? name) : model.estimate v = model.estimate w := by
  apply Model.estimate_congr h.schema h.ensemble
  rw [Schema.align_congr hv]

/-- **A name under which all usable records agree does not matter.** -/
theorem estimate_congr_of_unvaried {name : String} {x : Float}
    (h : plan.Learned records model s e) (hx : (x == x) = true)
    (hr : ∀ r ∈ plan.usable records, (r.1.query.vector plan.target none).get? name = some x)
    (hv : ∀ other ≠ name, v.get? other = w.get? other) : model.estimate v = model.estimate w := by
  by_cases hn : name ∈ s.names
  · obtain ⟨j, hj⟩ := List.getElem?_of_mem hn
    have hrow : ∀ row ∈ (plan.trainingPart records).map (plan.rowOf s), row.at j = x := by
      intro row hm
      obtain ⟨r, hp, rfl⟩ := List.mem_map.1 hm
      have hat := Schema.at_align hj (r.1.query.vector plan.target none)
      rw [hr r (Dataset.mem_of_mem_pick hp)] at hat
      exact hat
    have hj' : Unvaried ((plan.trainingPart records).map (plan.rowOf s)) j := by
      intro row hm row' hm'
      rw [hrow row hm, hrow row' hm']
      exact hx
    apply Model.estimate_congr h.schema h.ensemble
    exact (Ensemble.ignores_of_fit h.fit hj').predict _ _ (Schema.at_align_congr hj hv)
  · exact h.estimate_congr fun other ho => hv other (ne_of_mem_of_not_mem ho hn)

end Learned

end TrainingPlan

end QueryForecast
