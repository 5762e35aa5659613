import QueryForecast.Proofs.Training.Fitting

/-!
# Outcomes that a run does not see

What is held out only serves to judge the model. So two runs over records that differ in nothing but
the outcomes of the held-out ones hand out the same columns and the same trees, and rank the features
alike; or they fail alike.

* `Dataset.pick_congr` — picking from lists that agree where it looks.
* `Model.fit_cases` — a fit does not depend on when it happens.
* `TrainingPlan.fitDataset_unjudged` — datasets that are trained on alike.
* `TrainingPlan.train_of_seenAlike` — runs that are trained alike.
-/

namespace QueryForecast

open Time

/-- Two lists that agree at the positions where they are picked from. -/
theorem Dataset.pick_congr {α : Type} {xs ys : List α} {positions : List Nat}
    (h : ∀ i ∈ positions, xs[i]? = ys[i]?) :
    Ensemble.pick xs positions = Ensemble.pick ys positions := by
  unfold Ensemble.pick
  dsimp only
  apply List.filterMap_congr
  intro i hi
  rw [List.getElem?_toArray, List.getElem?_toArray, h i hi]

namespace Model

/-- The time of a fit is noted in the model, and decides nothing. -/
theorem fit_cases (t : Target) (settings : Settings) (s : Schema) (rows : List Row)
    (outcomes : List Float) :
    (∃ failure, ∀ now, fit t settings s rows outcomes now = .error failure) ∨
      ∃ e, ∀ now, fit t settings s rows outcomes now =
        .ok (ofEnsemble t settings s e rows.length now) := by
  unfold fit
  split
  · exact .inl ⟨_, fun _ => rfl⟩
  · cases Ensemble.fit settings rows (outcomes.map t.toScore) with
    | error fault => exact .inl ⟨_, fun _ => rfl⟩
    | ok e => exact .inr ⟨e, fun _ => rfl⟩

/-- A model without how good it was found to be, and when. -/
def unjudged (m : Model) : Model :=
  { m with quality := none, trainedAt := none }

end Model

/-- A report without how good the model was found to be. -/
def TrainingReport.unjudged (r : TrainingReport) : TrainingReport :=
  { r with quality := {}, meetsGoal := none }

namespace TrainingPlan

variable {plan : TrainingPlan} {records₁ records₂ : List ExecutionRecord}

/-- A run without how good its model was found to be, and when. -/
def unjudged (run : Model × TrainingReport) : Model × TrainingReport :=
  (run.1.unjudged, run.2.unjudged)

/-- **Datasets that are trained on alike**: what is held out of them may be anything. -/
theorem fitDataset_unjudged {d₁ d₂ training heldOut₁ heldOut₂ : Dataset} {skipped : Nat}
    (hd₁ : d₁.divide plan.heldOutFraction plan.divisionSeed = (training, heldOut₁))
    (hd₂ : d₂.divide plan.heldOutFraction plan.divisionSeed = (training, heldOut₂))
    (hschema : d₁.schema = d₂.schema) (hsize : d₁.size = d₂.size)
    (hheld : heldOut₁.size = heldOut₂.size) (now₁ now₂ : Timestamp) :
    (plan.fitDataset d₁ skipped now₁).map unjudged =
      (plan.fitDataset d₂ skipped now₂).map unjudged := by
  rcases Model.fit_cases plan.target plan.settings d₁.schema training.rows training.outcomes with
    ⟨failure, hf⟩ | ⟨e, hf⟩
  · have hf₂ := hf now₂
    rw [hschema] at hf₂
    rw [fitDataset_of_error hd₁ (hf now₁), fitDataset_of_error hd₂ hf₂]
  · have hf₂ := hf now₂
    rw [hschema] at hf₂
    rw [fitDataset_of_ok hd₁ (hf now₁), fitDataset_of_ok hd₂ hf₂, hschema, hsize, hheld]
    simp only [Except.map, unjudged, Model.unjudged, TrainingReport.unjudged, Model.withQuality,
      Model.ofEnsemble]

/-- Two lists of records that differ, for a plan, in nothing but the outcomes of those that it holds
out. All outcomes are valid. -/
structure SeenAlike (p : TrainingPlan) (records₁ records₂ : List ExecutionRecord) : Prop where
  queries : records₁.map (·.query) = records₂.map (·.query)
  valid₁ : ∀ r ∈ records₁, ∃ y, r.outcome? p.target = some y
  valid₂ : ∀ r ∈ records₂, ∃ y, r.outcome? p.target = some y
  outcomes : ∀ i ∈ (Dataset.division records₁.length p.heldOutFraction p.divisionSeed).1,
    records₁[i]?.bind (·.outcome? p.target) = records₂[i]?.bind (·.outcome? p.target)

namespace SeenAlike

theorem length_eq (h : plan.SeenAlike records₁ records₂) : records₁.length = records₂.length := by
  have hl := congrArg List.length h.queries
  rwa [List.length_map, List.length_map] at hl

theorem length_usable_eq (h : plan.SeenAlike records₁ records₂) :
    (plan.usable records₁).length = (plan.usable records₂).length := by
  rw [length_usable h.valid₁, length_usable h.valid₂, h.length_eq]

theorem length_heldOutPart_eq (h : plan.SeenAlike records₁ records₂) :
    (plan.heldOutPart records₁).length = (plan.heldOutPart records₂).length := by
  rw [length_heldOutPart, length_heldOutPart, h.length_usable_eq]

/-- The columns come from the queries. -/
theorem vectors_eq (h : plan.SeenAlike records₁ records₂) :
    ((plan.usable records₁).map fun r => r.1.query.vector plan.target none) =
      (plan.usable records₂).map fun r => r.1.query.vector plan.target none := by
  have hv := congrArg (List.map fun q : Query => q.vector plan.target none) h.queries
  rw [List.map_map, List.map_map] at hv
  rw [usable_eq_map h.valid₁, usable_eq_map h.valid₂, List.map_map, List.map_map]
  exact hv

/-- The examples that are trained on come from the queries, and from the outcomes that are not held
out. -/
theorem examples_eq (h : plan.SeenAlike records₁ records₂) (s : Schema) :
    (plan.trainingPart records₁).map (Dataset.exampleOf plan.target s) =
      (plan.trainingPart records₂).map (Dataset.exampleOf plan.target s) := by
  unfold trainingPart
  rw [← h.length_usable_eq, length_usable h.valid₁, ← Dataset.pick_map, ← Dataset.pick_map,
    usable_eq_map h.valid₁, usable_eq_map h.valid₂, List.map_map, List.map_map]
  apply Dataset.pick_congr
  intro i hi
  have hq : records₁[i]?.map (·.query) = records₂[i]?.map (·.query) := by
    rw [← List.getElem?_map, ← List.getElem?_map, h.queries]
  have ho := h.outcomes i hi
  rw [List.getElem?_map, List.getElem?_map]
  cases h₁ : records₁[i]? with
  | none =>
    rw [h₁, Option.map_none, eq_comm, Option.map_eq_none_iff] at hq
    rw [hq]
  | some r₁ =>
    rw [h₁, Option.map_some, eq_comm, Option.map_eq_some_iff] at hq
    obtain ⟨r₂, h₂, hq⟩ := hq
    rw [h₁, h₂, Option.bind_some, Option.bind_some] at ho
    simp only [h₂, Option.map_some, Function.comp_apply, Dataset.exampleOf, hq, ho]

end SeenAlike

/-- **The outcomes that are held out do not reach the model**: over records that differ in nothing
else a plan fails alike, or it hands out models with the same columns, the same trees and the same
gains, and reports that differ in nothing but how good the model was found to be. -/
theorem train_of_seenAlike (h : plan.SeenAlike records₁ records₂) (now₁ now₂ : Timestamp) :
    (plan.train records₁ now₁).map unjudged = (plan.train records₂ now₂).map unjudged := by
  cases hf : plan.fault? with
  | some fault =>
    unfold train checked
    rw [hf]
    rfl
  | none =>
    have hu := h.length_usable_eq
    rcases Nat.lt_or_ge (plan.usable records₁).length plan.requiredRecords with hn | hn
    · rw [train_of_few hf hn, train_of_few hf (hu ▸ hn), hu]
    · obtain ⟨s, hs₁, -, hd₁⟩ := Dataset.exists_ofRecords_eq plan.target (plan.usable records₁)
      obtain ⟨s₂, hs₂, -, hd₂⟩ := Dataset.exists_ofRecords_eq plan.target (plan.usable records₂)
      rw [h.vectors_eq] at hs₁
      cases hs₁.symm.trans hs₂
      have hdiv₁ := divide_usable plan records₁ s
      have hdiv₂ := divide_usable plan records₂ s
      rw [h.examples_eq] at hdiv₁
      rw [train_eq_fitDataset hf hn hd₁, train_eq_fitDataset hf (hu ▸ hn) hd₂, hu, h.length_eq]
      refine fitDataset_unjudged hdiv₁ hdiv₂ rfl ?_ ?_ now₁ now₂
      · rw [Dataset.size_ofExamples, Dataset.size_ofExamples, List.length_map, List.length_map, hu]
      · rw [Dataset.size_ofExamples, Dataset.size_ofExamples, List.length_map, List.length_map,
          h.length_heldOutPart_eq]

theorem queries_bareRecords (outcomes : List Float) :
    (bareRecords outcomes).map (·.query) = List.replicate outcomes.length (.ofProfile {}) := by
  unfold bareRecords
  rw [List.map_map, ← List.map_const']
  rfl

theorem seenAlike_bareRecords :
    leafPlan.SeenAlike (bareRecords [0.5, 0.0, 0.5, 1.0]) (bareRecords [0.5, 0.5, 0.5, 0.5]) where
  queries := by
    rw [queries_bareRecords, queries_bareRecords]
    simp only [List.length_cons]
  valid₁ := by
    have h : ∀ r ∈ bareRecords [0.5, 0.0, 0.5, 1.0],
        (r.outcome? leafPlan.target).isSome = true := by decide +kernel
    exact fun r hr => Option.isSome_iff_exists.1 (h r hr)
  valid₂ := by
    have h : ∀ r ∈ bareRecords [0.5, 0.5, 0.5, 0.5],
        (r.outcome? leafPlan.target).isSome = true := by decide +kernel
    exact fun r hr => Option.isSome_iff_exists.1 (h r hr)
  outcomes := by
    rw [show (bareRecords [0.5, 0.0, 0.5, 1.0]).length = 4 from List.length_map _]
    decide +kernel

/-- The held-out outcomes are others and the trees are not, so these are off by more or less. -/
theorem train_of_other_heldOut_outcomes :
    leafPlan.SeenAlike (bareRecords [0.5, 0.0, 0.5, 1.0]) (bareRecords [0.5, 0.5, 0.5, 0.5]) ∧
      ∃ m₁ r₁ m₂ r₂,
        leafPlan.train (bareRecords [0.5, 0.0, 0.5, 1.0]) (.ofParts 19783 0 0) = .ok (m₁, r₁) ∧
        leafPlan.train (bareRecords [0.5, 0.5, 0.5, 0.5]) (.ofParts 19783 0 0) = .ok (m₂, r₂) ∧
        m₁.schema = m₂.schema ∧ m₁.ensemble = m₂.ensemble ∧
        m₁.quality.map (·.mae) = some 0.5 ∧ m₂.quality.map (·.mae) = some 0.0 := by
  obtain ⟨m₁, r₁, h₁, hq₁⟩ := @exists_of_train [0.5, 0.0, 0.5, 1.0]
    (fun m => decide (m.quality.map (·.mae) = some 0.5)) (by decide +kernel)
  obtain ⟨m₂, r₂, h₂, hq₂⟩ := @exists_of_train [0.5, 0.5, 0.5, 0.5]
    (fun m => decide (m.quality.map (·.mae) = some 0.0)) (by decide +kernel)
  have he := train_of_seenAlike seenAlike_bareRecords (.ofParts 19783 0 0) (.ofParts 19783 0 0)
  rw [h₁, h₂] at he
  have hm : m₁.unjudged = m₂.unjudged := congrArg Prod.fst (Except.ok.inj he)
  have hschema : m₁.unjudged.schema = m₂.unjudged.schema := by rw [hm]
  have hensemble : m₁.unjudged.ensemble = m₂.unjudged.ensemble := by rw [hm]
  exact ⟨seenAlike_bareRecords, m₁, r₁, m₂, r₂, h₁, h₂, hschema, hensemble,
    of_decide_eq_true hq₁, of_decide_eq_true hq₂⟩

end TrainingPlan

end QueryForecast
