import QueryForecast.Feature.Clause
import QueryForecast.Proofs.Training.Fitting

/-!
# Records with numbers that are not finite

Records are screened by their outcome alone. A number in a record's features that is not finite gets
past the screening, and when the record is one to train on, it ends the whole run; in a record that
is held out it does no harm. The engine can make such a record itself: the length of a query vector
with a component past the range of single precision is infinite.

* `TrainingPlan.train_of_enough_usable` — the exact condition under which a run with enough usable
  records goes through.
* `TrainingPlan.exists_failed_run` — one record is enough to end a run.
-/

namespace QueryForecast.TrainingPlan

open Numeric Time

variable {plan : TrainingPlan} {records : List ExecutionRecord}

/-- **A run with enough usable records goes through exactly when no record that it trains on has a
number that is not finite among those that become features as they are**; otherwise it fails, and
names the first row that has one. Nothing else in the records matters, and nothing at all in those
that are held out. The memory for the trees of the plan is taken to be there. -/
theorem train_of_enough_usable (h : plan.fault? = none)
    (hn : plan.requiredRecords ≤ (plan.usable records).length)
    (ha : plan.target = .cardinality → ∀ r ∈ records, r.query.Addressable) (now : Timestamp) :
    ((∃ model report, plan.train records now = .ok (model, report)) ↔
      ∀ r ∈ plan.trainingPart records, r.1.query.isMeasured plan.target = true) ∧
    ∀ k, (plan.trainingPart records).findIdx? (fun r => !r.1.query.isMeasured plan.target) = some k →
      plan.train records now =
        .error (.invalidArgument ("row " ++ toString k ++ " contains a non-finite feature value")) := by
  obtain ⟨s, hs, -, -⟩ := Dataset.exists_ofRecords_eq plan.target (plan.usable records)
  have he := train_eq h hn ha hs now
  have hnone : (plan.trainingPart records).findIdx? (fun r => !r.1.query.isMeasured plan.target) =
      none ↔ ∀ r ∈ plan.trainingPart records, r.1.query.isMeasured plan.target = true := by
    simp
  constructor
  · rw [← hnone]
    constructor
    · rintro ⟨model, report, hok⟩
      rw [hok] at he
      split at he
      · cases he
      · assumption
    · intro hk
      rw [hk] at he
      exact ⟨_, _, he⟩
  · intro k hk
    rw [hk] at he
    exact he

/-- The profile of a search whose query vector has a component of `1e39`. -/
def overflowedProfile : FilterProfile :=
  .ofClause none [toSingle 1e39] 1000 (.ofParts 19783 0 0)

/-- The records of four filters, with the profile of the one at the given position overflowed. -/
def overflowedAt (i : Nat) : List ExecutionRecord :=
  (bareRecords [0.5, 0.0, 0.5, 1.0]).modify i fun r => { r with query := .ofProfile overflowedProfile }

theorem train_of_overflowed_heldOut :
    leafPlan.fault? = none ∧
      leafPlan.requiredRecords ≤ (leafPlan.usable (overflowedAt 1)).length ∧
      ∃ model report, leafPlan.train (overflowedAt 1) (.ofParts 19783 0 0) = .ok (model, report) := by
  have hf : leafPlan.fault? = none := by decide +kernel
  have hn : leafPlan.requiredRecords ≤ (leafPlan.usable (overflowedAt 1)).length := by
    decide +kernel
  have hm : ∀ r ∈ leafPlan.trainingPart (overflowedAt 1),
      r.1.query.isMeasured leafPlan.target = true := by
    decide +kernel
  exact ⟨hf, hn, (train_of_enough_usable hf hn (fun hc => nomatch hc) (.ofParts 19783 0 0)).1.2 hm⟩

/-- One of four usable records has an infinite number, and nothing is trained, though two records
would be enough. -/
theorem exists_failed_run :
    leafPlan.fault? = none ∧ leafPlan.requiredRecords = 2 ∧
      (leafPlan.usable (overflowedAt 0)).length = 4 ∧
      leafPlan.train (overflowedAt 0) (.ofParts 19783 0 0) =
        .error (.invalidArgument "row 0 contains a non-finite feature value") := by
  have hf : leafPlan.fault? = none := by decide +kernel
  have hr : leafPlan.requiredRecords = 2 := by decide +kernel
  have hl : (leafPlan.usable (overflowedAt 0)).length = 4 := by decide +kernel
  obtain ⟨s, hs, -, -⟩ :=
    Dataset.exists_ofRecords_eq leafPlan.target (leafPlan.usable (overflowedAt 0))
  have h := train_eq hf (by omega) (fun hc => nomatch hc) hs (.ofParts 19783 0 0)
  rw [show (leafPlan.trainingPart (overflowedAt 0)).findIdx?
    (fun r => !r.1.query.isMeasured leafPlan.target) = some 0 by decide +kernel] at h
  exact ⟨hf, hr, hl, h⟩

end QueryForecast.TrainingPlan
