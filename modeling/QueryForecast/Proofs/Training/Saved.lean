import QueryForecast.Proofs.Model.Storable
import QueryForecast.Proofs.Numeric.Comparing
import QueryForecast.Proofs.Serving.Total
import QueryForecast.Training.Run

/-!
# Artifacts of training runs

A training run hands out a model that is servable but for numbers that are not finite: thresholds
halfway between values far apart, leaves and gains that overflow, and the explained share when the
held-out outcomes hardly vary. Such a number is `null` in the artifact.

* `Settings.isFinite_numbers` — the settings of a plan that is carried out are finite.
* `Model.fit_eq_ok` — what a fit that succeeds has made.
* `TrainingPlan.Trained` — what a training run that succeeds hands out.
* `TrainingPlan.artifact_of_train` — the artifact is read as the model that it was made from
  when all its numbers are finite, and is refused otherwise.
-/

namespace QueryForecast

open Numeric Time

namespace Settings

theorem isFinite_of_isFraction {x : Float} (h : isFraction x = true) : x.isFinite = true := by
  unfold isFraction at h
  rw [Bool.and_eq_true, decide_eq_true_iff, decide_eq_true_iff] at h
  exact isFinite_of_lt_of_le (by decide) h.1 h.2

theorem isFinite_numbers {s : Settings} (h : s.fault? = none) :
    s.numbers.all Float.isFinite = true := by
  unfold fault? at h
  split at h
  · cases h
  split at h
  · cases h
  split at h
  · cases h
  rename_i hlearning
  split at h
  · cases h
  rename_i hrows
  split at h
  · cases h
  rename_i hcolumns
  split at h
  · cases h
  rename_i hlambda
  rw [Decidable.not_not] at hlearning hrows hcolumns hlambda
  have hr := isFinite_of_isFraction hrows
  have hc := isFinite_of_isFraction hcolumns
  simp [numbers, hlearning.1, hr, hc, hlambda.1]

end Settings

namespace Model

variable {target : Target} {settings : Settings} {schema : Schema} {rows : List Row}
  {outcomes : List Float} {now : Timestamp} {m : Model}

/-- What a fit that succeeds has made. -/
theorem fit_eq_ok (h : fit target settings schema rows outcomes now = .ok m) :
    ∃ ensemble, Ensemble.fit settings rows (outcomes.map target.toScore) = .ok ensemble ∧
      ensemble.width = schema.width ∧
      m = ofEnsemble target settings schema ensemble rows.length now := by
  unfold fit at h
  split at h
  · cases h
  · rename_i hrows
    split at h
    · rename_i ensemble he
      cases h
      refine ⟨ensemble, he, ?_, rfl⟩
      rw [List.find?_eq_none] at hrows
      obtain ⟨hf, rfl⟩ := Ensemble.fit_eq_ok he
      cases rows with
      | nil =>
        unfold Ensemble.matrixFault? at hf
        split at hf <;> cases hf
      | cons first rest =>
        have hw := hrows first List.mem_cons_self
        rw [decide_eq_true_iff, Decidable.not_not] at hw
        exact hw
    · cases h

end Model

namespace TrainingPlan

variable {plan : TrainingPlan} {records : List ExecutionRecord} {now : Timestamp} {model : Model}
  {report : TrainingReport}

/-- What a training run hands out: a fitted model with its quality. -/
structure Trained (plan : TrainingPlan) (now : Timestamp) (model : Model) : Prop where
  settings : plan.settings.fault? = none
  model : ∃ schema rows targets ensemble quality,
    Ensemble.fit plan.settings rows targets = .ok ensemble ∧ ensemble.width = schema.width ∧
      model = (Model.ofEnsemble plan.target plan.settings schema ensemble rows.length
        now).withQuality quality

/-- A run that goes through has fitted a model to the dataset of its usable records. -/
theorem train_eq_ok (h : plan.train records now = .ok (model, report)) :
    plan.checked = .ok () ∧
      ∃ d, (Dataset.ofRecords plan.target (plan.usable records)).mapError SchemaFault.toFailure =
          .ok d ∧
        plan.fitDataset d (records.length - (plan.usable records).length) now =
          .ok (model, report) := by
  obtain ⟨⟨⟩, hc, h⟩ := exists_ok_of_bind h
  dsimp only at h
  split at h
  · cases h
  · obtain ⟨d, hd, h⟩ := exists_ok_of_bind h
    exact ⟨hc, d, hd, h⟩

/-- What is fitted to a dataset is fitted to its training part. -/
theorem fitDataset_eq_ok {d training heldOut : Dataset} {skipped : Nat}
    (hd : d.divide plan.heldOutFraction plan.divisionSeed = (training, heldOut))
    (h : plan.fitDataset d skipped now = .ok (model, report)) :
    ∃ ensemble quality,
      Ensemble.fit plan.settings training.rows (training.outcomes.map plan.target.toScore) =
          .ok ensemble ∧
        ensemble.width = d.schema.width ∧
        model = (Model.ofEnsemble plan.target plan.settings d.schema ensemble training.rows.length
          now).withQuality quality := by
  unfold fitDataset at h
  rw [hd] at h
  obtain ⟨m, hm, h⟩ := exists_ok_of_bind h
  obtain ⟨quality, -, h⟩ := exists_ok_of_bind h
  obtain ⟨importance, -, h⟩ := exists_ok_of_bind h
  cases h
  obtain ⟨ensemble, he, hw, rfl⟩ := Model.fit_eq_ok hm
  exact ⟨ensemble, quality, he, hw, rfl⟩

theorem settings_of_checked {u : Unit} (h : plan.checked = .ok u) :
    plan.settings.fault? = none := by
  unfold checked fault? at h
  split at h
  · cases h
  · rename_i hf
    split at hf
    · cases hf
    · exact Option.map_eq_none_iff.1 hf

theorem trained_of_train (h : plan.train records now = .ok (model, report)) :
    plan.Trained now model := by
  obtain ⟨hc, d, -, h⟩ := train_eq_ok h
  obtain ⟨ensemble, quality, he, hw, rfl⟩ := fitDataset_eq_ok rfl h
  exact ⟨settings_of_checked hc, d.schema, _, _, ensemble, quality, he, hw, rfl⟩

/-- **A trained model is servable when its numbers are finite.** -/
theorem Trained.artifactFault? (h : plan.Trained now model)
    (hf : model.numbers.all Float.isFinite = true) : model.artifactFault? = none := by
  obtain ⟨-, schema, rows, targets, ensemble, quality, he, hw, rfl⟩ := h
  refine Model.artifactFault?_eq_none_iff.2 ⟨schema, ensemble, rfl, rfl, rfl, rfl, hw, ?_⟩
  refine Ensemble.wellFormed_of_fit he ?_
  rw [List.all_eq_true] at hf ⊢
  intro x hx
  refine hf x (List.mem_append_left _ ?_)
  exact List.mem_flatMap.2 ⟨ensemble, List.mem_cons_self, hx⟩

theorem Trained.ofJson_toJson (h : plan.Trained now model)
    (hnow : Timestamp.parse? now.text = some now) :
    Model.ofJson model.toJson =
      if model.numbers.all Float.isFinite then .ok model else .error (.undecodable .shape) := by
  have hd : Model.decode model.toJson =
      if model.numbers.all Float.isFinite then .ok model else .error .shape := by
    obtain ⟨hs, schema, rows, targets, ensemble, quality, -, -, rfl⟩ := h
    refine Model.decode_toJson (Settings.isFinite_numbers hs) fun t ht => ?_
    cases ht
    exact hnow
  unfold Model.ofJson
  rw [hd]
  by_cases hf : model.numbers.all Float.isFinite = true
  · rw [if_pos hf, if_pos hf]
    dsimp only
    rw [h.artifactFault? hf]
  · rw [if_neg hf, if_neg hf]

/-- **The artifact of a training run is read as the model that was handed out exactly when all its
numbers are finite**; otherwise one of them is `null`, and the artifact is refused. The same holds
of its text, as far as printing it and reading it again keeps the encoding, which they do when the
model's whole numbers take 64 bits. -/
theorem artifact_of_train (h : plan.train records now = .ok (model, report))
    (hnow : Timestamp.parse? now.text = some now) :
    (Model.ofJson model.toJson =
      if model.numbers.all Float.isFinite then .ok model else .error (.undecodable .shape)) ∧
    (Json.excerpt Model.outlines model.toText = (model.toJson, true) →
      Model.parse model.toText =
        if model.numbers.all Float.isFinite then .ok model
        else .error (.serialization (ArtifactFault.undecodable .shape).message)) ∧
    (model.WellSized →
      Model.parse model.toText =
        if model.numbers.all Float.isFinite then .ok model
        else .error (.serialization (ArtifactFault.undecodable .shape).message)) := by
  have hj := (trained_of_train h).ofJson_toJson hnow
  have hparse : Json.excerpt Model.outlines model.toText = (model.toJson, true) →
      Model.parse model.toText =
        if model.numbers.all Float.isFinite then .ok model
        else .error (.serialization (ArtifactFault.undecodable .shape).message) := by
    intro hprint
    unfold Model.parse Model.ofText
    rw [hprint]
    dsimp only
    rw [if_pos rfl, hj]
    cases model.numbers.all Float.isFinite <;> rfl
  exact ⟨hj, hparse, fun hsize => hparse hsize.excerpt_toText⟩

/-- A plan whose trees are single leaves. -/
def leafPlan : TrainingPlan where
  minRecords := 2
  heldOutFraction := 0.5
  settings := { rounds := 1, rowFraction := 1.0, columnFraction := 1.0, minLeafRows := 2 }

/-- Records that say nothing but the outcome; of four of them, the second and fourth are held
out. -/
def bareRecords (outcomes : List Float) : List ExecutionRecord :=
  outcomes.map (.ofSelectivity {})

/-- A run whose model passes a test is one that succeeds. -/
theorem exists_of_train {outcomes : List Float} {test : Model → Bool}
    (h : (leafPlan.train (bareRecords outcomes) (.ofParts 19783 0 0)).toOption.map
      (fun run => test run.1) = some true) :
    ∃ m r, leafPlan.train (bareRecords outcomes) (.ofParts 19783 0 0) = .ok (m, r) ∧
      test m = true := by
  cases hrun : leafPlan.train (bareRecords outcomes) (.ofParts 19783 0 0) with
  | error failure =>
    rw [hrun] at h
    cases h
  | ok run =>
    rw [hrun] at h
    exact ⟨run.1, run.2, rfl, Option.some.inj h⟩

theorem artifact_of_train_of_varied_outcomes :
    ∃ m r, leafPlan.train (bareRecords [0.5, 0.0, 0.5, 1.0]) (.ofParts 19783 0 0) = .ok (m, r) ∧
      Model.ofJson m.toJson = .ok m ∧ Model.parse m.toText = .ok m := by
  obtain ⟨m, r, h, ht⟩ := @exists_of_train [0.5, 0.0, 0.5, 1.0]
    (fun m => m.numbers.all Float.isFinite && decide m.WellSized) (by decide +kernel)
  rw [Bool.and_eq_true, decide_eq_true_iff] at ht
  obtain ⟨hj, -, hp⟩ := artifact_of_train h (by decide +kernel)
  rw [if_pos ht.1] at hj hp
  exact ⟨m, r, h, hj, hp ht.2⟩

/-- Held-out outcomes that hardly vary leave an infinite share unexplained, and the artifact is
refused. -/
theorem exists_refused_artifact :
    ∃ m r, leafPlan.train (bareRecords [0.5, 0.0, 0.5, 1e-160]) (.ofParts 19783 0 0) =
        .ok (m, r) ∧
      Model.ofJson m.toJson = .error (.undecodable .shape) := by
  obtain ⟨m, r, h, ht⟩ := @exists_of_train [0.5, 0.0, 0.5, 1e-160]
    (fun m => !m.numbers.all Float.isFinite) (by decide +kernel)
  rw [Bool.not_eq_true'] at ht
  refine ⟨m, r, h, ?_⟩
  rw [(trained_of_train h).ofJson_toJson (by decide +kernel), if_neg (by rw [ht]; decide)]

end TrainingPlan

end QueryForecast
