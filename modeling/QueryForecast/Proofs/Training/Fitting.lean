import QueryForecast.Proofs.Boosting.Accepted
import QueryForecast.Proofs.Feature.Measured
import QueryForecast.Proofs.Outcome
import QueryForecast.Proofs.Training.Division
import QueryForecast.Proofs.Training.Saved

/-!
# What a training run fits

With enough usable records a run goes through: they have a schema, the rows aligned to it are of one
width, both parts of the division have some, and valid outcomes are finite on the scale that is
fitted. All that can stop it is a number in the features of a record in the part that it trains on.

* `Dataset.exists_ofRecords_eq` — records always make a dataset.
* `TrainingPlan.trainingPart`, `TrainingPlan.heldOutPart` — the records that a run fits to, and those
  that it is judged on.
* `TrainingPlan.fit_trainingPart` — what fitting to the former comes to.
* `TrainingPlan.train_of_few`, `TrainingPlan.train_eq` — what a run comes to.
-/

namespace QueryForecast

open Time

/-! ## Datasets -/

namespace Dataset

/-- The example that is made of a record and its outcome. -/
def exampleOf (t : Target) (s : Schema) (record : ExecutionRecord × Float) : Example :=
  ⟨(s.align (record.1.query.vector t none)).toArray, record.2⟩

/-- **Records always make a dataset**, whose columns are the names of all their features. -/
theorem exists_ofRecords_eq (t : Target) (records : List (ExecutionRecord × Float)) :
    ∃ s : Schema,
      Schema.ofVectors t.baseFeatures (records.map fun r => r.1.query.vector t none) = .ok s ∧
      (∀ r ∈ records, ∀ name ∈ (r.1.query.vector t none).names, name ∈ s.names) ∧
      ofRecords t records = .ok (ofExamples s (records.map (exampleOf t s))) := by
  obtain ⟨s, hs, hn⟩ := Schema.exists_ofVectors_eq t.baseFeatures (by cases t <;> decide)
    (by cases t <;> decide) (records.map fun r => r.1.query.vector t none)
  refine ⟨s, hs, fun r hr name hm => ?_, ?_⟩
  · exact (Schema.mem_names_ofVectors hn).2 (.inr ⟨_, List.mem_map_of_mem hr, hm⟩)
  · unfold ofRecords
    dsimp only
    rw [hs]
    refine congrArg Except.ok (Dataset.ext rfl ?_ ?_)
    · simp [ofExamples, exampleOf]
    · simp [ofExamples, exampleOf]

/-- The parts of a dataset of records are those of the records. -/
theorem divide_map (t : Target) (s : Schema) (records : List (ExecutionRecord × Float))
    (fraction : Float) (seed : UInt64) :
    (ofExamples s (records.map (exampleOf t s))).divide fraction seed =
      (ofExamples s
          ((Ensemble.pick records (division records.length fraction seed).1).map (exampleOf t s)),
        ofExamples s
          ((Ensemble.pick records (division records.length fraction seed).2).map
            (exampleOf t s))) := by
  rw [divide_eq, size_ofExamples, List.length_map, pick_ofExamples, pick_ofExamples, pick_map, pick_map]

end Dataset

/-! ## Fits -/

/-- **Fitting to rows of the schema's width** goes through unless one of them is not finite. -/
theorem Model.fit_eq {t : Target} {settings : Settings} {s : Schema} {rows : List Row}
    {outcomes : List Float} (hs : settings.fault? = none) (hn : rows ≠ [])
    (hc : rows.length = outcomes.length) (hw : ∀ row ∈ rows, row.size = s.width)
    (ho : ∀ y ∈ outcomes, t.accepts y = true) (now : Timestamp) :
    fit t settings s rows outcomes now =
      match rows.findIdx? fun row => !row.all Float.isFinite with
      | some k => .error (MatrixFault.notFinite k).toFailure
      | none => .ok (ofEnsemble t settings s
          (Ensemble.fitMatrix settings rows (outcomes.map t.toScore)) rows.length now) := by
  have hwidth : rows.find? (fun row => decide (row.size ≠ s.width)) = none := by
    rw [List.find?_eq_none]
    intro row hr
    simpa using hw row hr
  have htargets : (outcomes.map t.toScore).all Float.isFinite = true := by
    rw [List.all_map, List.all_eq_true]
    exact fun y hy => Target.isFinite_toScore (ho y hy)
  have hf := Ensemble.matrixFault?_eq_map hs hn (hc.trans (List.length_map _).symm) hw htargets
  unfold fit Ensemble.fit
  rw [hwidth, hf]
  cases rows.findIdx? fun row => !row.all Float.isFinite <;> rfl

namespace TrainingPlan

variable {plan : TrainingPlan} {records : List ExecutionRecord}

/-! ## Usable records -/

theorem mem_usable {r : ExecutionRecord} {y : Float} :
    (r, y) ∈ plan.usable records ↔ r ∈ records ∧ r.outcome? plan.target = some y := by
  unfold usable
  rw [List.mem_filterMap]
  constructor
  · rintro ⟨q, hq, h⟩
    obtain ⟨x, hx, he⟩ := Option.map_eq_some_iff.1 h
    cases he
    exact ⟨hq, hx⟩
  · rintro ⟨hr, hy⟩
    exact ⟨r, hr, by rw [hy]; rfl⟩

theorem accepts_of_mem_usable {u : ExecutionRecord × Float} (h : u ∈ plan.usable records) :
    plan.target.accepts u.2 = true :=
  (Option.filter_eq_some_iff.1 (mem_usable.1 h).2).2

/-- When every outcome is valid, every record is usable. -/
theorem usable_eq_map (h : ∀ r ∈ records, ∃ y, r.outcome? plan.target = some y) :
    plan.usable records = records.map fun r => (r, (r.outcome? plan.target).getD 0.0) := by
  unfold usable
  rw [← List.filterMap_eq_map]
  apply List.filterMap_congr
  intro r hr
  obtain ⟨y, hy⟩ := h r hr
  rw [Function.comp_apply, hy]
  rfl

theorem length_usable (h : ∀ r ∈ records, ∃ y, r.outcome? plan.target = some y) :
    (plan.usable records).length = records.length := by
  rw [usable_eq_map h, List.length_map]

/-- The usable records that a model is fitted to, in the order in which they are drawn. -/
def trainingPart (p : TrainingPlan) (records : List ExecutionRecord) :
    List (ExecutionRecord × Float) :=
  Ensemble.pick (p.usable records)
    (Dataset.division (p.usable records).length p.heldOutFraction p.divisionSeed).1

/-- The usable records that it is judged on. -/
def heldOutPart (p : TrainingPlan) (records : List ExecutionRecord) :
    List (ExecutionRecord × Float) :=
  Ensemble.pick (p.usable records)
    (Dataset.division (p.usable records).length p.heldOutFraction p.divisionSeed).2

theorem length_trainingPart : (plan.trainingPart records).length =
    (Dataset.division (plan.usable records).length plan.heldOutFraction
      plan.divisionSeed).1.length :=
  Dataset.length_pick fun _ hi => Dataset.lt_of_mem_division _ _ (.inl hi)

theorem length_heldOutPart : (plan.heldOutPart records).length =
    (Dataset.division (plan.usable records).length plan.heldOutFraction
      plan.divisionSeed).2.length :=
  Dataset.length_pick fun _ hi => Dataset.lt_of_mem_division _ _ (.inr hi)

theorem length_parts (h : 2 ≤ (plan.usable records).length) :
    1 ≤ (plan.trainingPart records).length ∧ 1 ≤ (plan.heldOutPart records).length ∧
      (plan.trainingPart records).length + (plan.heldOutPart records).length =
        (plan.usable records).length := by
  rw [length_trainingPart, length_heldOutPart]
  exact Dataset.length_division_pos _ _ h

/-- The dataset of the usable records is divided as they are. -/
theorem divide_usable (p : TrainingPlan) (records : List ExecutionRecord) (s : Schema) :
    (Dataset.ofExamples s ((p.usable records).map (Dataset.exampleOf p.target s))).divide
        p.heldOutFraction p.divisionSeed =
      (.ofExamples s ((p.trainingPart records).map (Dataset.exampleOf p.target s)),
        .ofExamples s ((p.heldOutPart records).map (Dataset.exampleOf p.target s))) :=
  Dataset.divide_map _ _ _ _ _

/-! ## Runs -/

/-- The row of a record under a schema. -/
def rowOf (p : TrainingPlan) (s : Schema) (record : ExecutionRecord × Float) : Row :=
  (Dataset.exampleOf p.target s record).row

theorem rows_examples (p : TrainingPlan) (s : Schema) (part : List (ExecutionRecord × Float)) :
    (Dataset.ofExamples s (part.map (Dataset.exampleOf p.target s))).rows = part.map (p.rowOf s) :=
  List.map_map

theorem outcomes_examples (p : TrainingPlan) (s : Schema)
    (part : List (ExecutionRecord × Float)) :
    (Dataset.ofExamples s (part.map (Dataset.exampleOf p.target s))).outcomes = part.map (·.2) :=
  List.map_map

/-- The ensemble that a run fits to some records. -/
def ensembleOf (p : TrainingPlan) (s : Schema) (part : List (ExecutionRecord × Float)) :
    Ensemble :=
  Ensemble.fitMatrix p.settings (part.map (p.rowOf s)) (part.map fun r => p.target.toScore r.2)

/-- How well an ensemble does on some records. -/
def qualityOf (p : TrainingPlan) (s : Schema) (e : Ensemble)
    (part : List (ExecutionRecord × Float)) : Quality :=
  Quality.compute (part.map fun r => e.predict (p.rowOf s r))
    (part.map fun r => p.target.toScore r.2)

/-- What a run that goes through hands out, when its records have the schema `s`. -/
def result (p : TrainingPlan) (s : Schema) (records : List ExecutionRecord) (now : Timestamp) :
    Model × TrainingReport :=
  let e := p.ensembleOf s (p.trainingPart records)
  let quality := p.qualityOf s e (p.heldOutPart records)
  ((Model.ofEnsemble p.target p.settings s e (p.trainingPart records).length now).withQuality
      quality,
    { target := p.target
      used := (p.usable records).length
      skipped := records.length - (p.usable records).length
      trainingExamples := (p.trainingPart records).length
      heldOutExamples := (p.heldOutPart records).length
      quality := quality
      importance := rankImportance s.names e.importances
      modelPath := none
      meetsGoal := p.meetsGoal quality })

theorem checked_of_fault? (h : plan.fault? = none) : plan.checked = .ok () := by
  rw [checked, h]

/-- Without enough usable records a run fails, and says how many there are. -/
theorem train_of_few (h : plan.fault? = none)
    (hn : (plan.usable records).length < plan.requiredRecords) (now : Timestamp) :
    plan.train records now =
      .error (.insufficientData (plan.usable records).length plan.requiredRecords) := by
  unfold train
  rw [checked_of_fault? h]
  exact if_pos hn

/-- A run with enough usable records fits the dataset that they make. -/
theorem train_eq_fitDataset (h : plan.fault? = none)
    (hn : plan.requiredRecords ≤ (plan.usable records).length) {d : Dataset}
    (hd : Dataset.ofRecords plan.target (plan.usable records) = .ok d) (now : Timestamp) :
    plan.train records now =
      plan.fitDataset d (records.length - (plan.usable records).length) now := by
  unfold train
  rw [checked_of_fault? h]
  show (if _ then _ else _) = _
  rw [if_neg (by omega), hd]
  rfl

/-- What is fitted decides what a run comes to: the held-out part only adds how good it is. -/
theorem fitDataset_of_error {d training heldOut : Dataset} {skipped : Nat} {now : Timestamp}
    {failure : Failure}
    (hd : d.divide plan.heldOutFraction plan.divisionSeed = (training, heldOut))
    (hf : Model.fit plan.target plan.settings d.schema training.rows training.outcomes now =
      .error failure) : plan.fitDataset d skipped now = .error failure := by
  unfold fitDataset
  rw [hd]
  dsimp only
  rw [hf]
  rfl

theorem fitDataset_of_ok {d training heldOut : Dataset} {skipped rows : Nat} {now : Timestamp}
    {e : Ensemble}
    (hd : d.divide plan.heldOutFraction plan.divisionSeed = (training, heldOut))
    (hf : Model.fit plan.target plan.settings d.schema training.rows training.outcomes now =
      .ok (.ofEnsemble plan.target plan.settings d.schema e rows now)) :
    plan.fitDataset d skipped now =
      let quality := Quality.compute (heldOut.rows.map e.predict)
        (heldOut.outcomes.map plan.target.toScore)
      .ok ((Model.ofEnsemble plan.target plan.settings d.schema e rows now).withQuality quality,
        { target := plan.target
          used := d.size
          skipped := skipped
          trainingExamples := training.size
          heldOutExamples := heldOut.size
          quality := quality
          importance := rankImportance d.schema.names e.importances
          modelPath := none
          meetsGoal := plan.meetsGoal quality }) := by
  unfold fitDataset
  rw [hd]
  dsimp only
  rw [hf]
  rfl

theorem findIdx?_congr {α : Type} {xs : List α} {p q : α → Bool} (h : ∀ x ∈ xs, p x = q x) :
    xs.findIdx? p = xs.findIdx? q := by
  induction xs with
  | nil => rfl
  | cons x rest ih =>
    rw [List.forall_mem_cons] at h
    rw [List.findIdx?_cons, List.findIdx?_cons, h.1, ih h.2]

/-- A row is finite when what its target takes over from the record is. -/
theorem all_isFinite_rowOf {s : Schema} {r : ExecutionRecord × Float}
    (ha : plan.target = .cardinality → r.1.query.Addressable)
    (hs : ∀ name ∈ (r.1.query.vector plan.target none).names, name ∈ s.names) :
    (plan.rowOf s r).all Float.isFinite = r.1.query.isMeasured plan.target := by
  rw [← Query.all_isFinite_vector ha, ← Schema.all_isFinite_align hs]
  exact List.all_toArray

/-- **Fitting to the training part** goes through unless a number in the features of one of its
records is not finite. -/
theorem fit_trainingPart (h : plan.fault? = none) (h2 : 2 ≤ (plan.usable records).length)
    (ha : plan.target = .cardinality → ∀ r ∈ records, r.query.Addressable) {s : Schema}
    (hs : ∀ r ∈ plan.usable records, ∀ name ∈ (r.1.query.vector plan.target none).names,
      name ∈ s.names) (now : Timestamp) :
    Model.fit plan.target plan.settings s ((plan.trainingPart records).map (plan.rowOf s))
        ((plan.trainingPart records).map (·.2)) now =
      match (plan.trainingPart records).findIdx? fun r => !r.1.query.isMeasured plan.target with
      | some k => .error (MatrixFault.notFinite k).toFailure
      | none => .ok (.ofEnsemble plan.target plan.settings s
          (plan.ensembleOf s (plan.trainingPart records)) (plan.trainingPart records).length
          now) := by
  obtain ⟨hpos, -, -⟩ := length_parts h2
  have hpart : ∀ r ∈ plan.trainingPart records, r ∈ plan.usable records :=
    fun r hr => Dataset.mem_of_mem_pick hr
  have hfinite : ((plan.trainingPart records).map (plan.rowOf s)).findIdx?
      (fun row => !row.all Float.isFinite) =
      (plan.trainingPart records).findIdx? fun r => !r.1.query.isMeasured plan.target := by
    rw [List.findIdx?_map]
    apply findIdx?_congr
    intro r hr
    exact congrArg not (all_isFinite_rowOf
      (fun hc => ha hc r.1 (mem_usable.1 (hpart r hr)).1) (hs r (hpart r hr)))
  have hne : (plan.trainingPart records).map (plan.rowOf s) ≠ [] := by
    rw [ne_eq, List.map_eq_nil_iff, ← List.length_eq_zero_iff]
    omega
  have hwidth : ∀ row ∈ (plan.trainingPart records).map (plan.rowOf s), row.size = s.width := by
    intro row hr
    obtain ⟨r, -, rfl⟩ := List.mem_map.1 hr
    exact s.length_align _
  have houtcomes : ∀ y ∈ (plan.trainingPart records).map (·.2), plan.target.accepts y = true := by
    intro y hy
    obtain ⟨r, hr, rfl⟩ := List.mem_map.1 hy
    exact accepts_of_mem_usable (hpart r hr)
  rw [Model.fit_eq (settings_of_checked (checked_of_fault? h)) hne
    (by rw [List.length_map, List.length_map]) hwidth houtcomes now, hfinite, List.map_map,
    List.length_map]
  rfl

/-- **What a run with enough usable records comes to**: it goes through unless a number in the
features of a record that it trains on is not finite. -/
theorem train_eq (h : plan.fault? = none)
    (hn : plan.requiredRecords ≤ (plan.usable records).length)
    (ha : plan.target = .cardinality → ∀ r ∈ records, r.query.Addressable) {s : Schema}
    (hs : Schema.ofVectors plan.target.baseFeatures
      ((plan.usable records).map fun r => r.1.query.vector plan.target none) = .ok s)
    (now : Timestamp) :
    plan.train records now =
      match (plan.trainingPart records).findIdx? fun r => !r.1.query.isMeasured plan.target with
      | some k => .error (MatrixFault.notFinite k).toFailure
      | none => .ok (plan.result s records now) := by
  obtain ⟨s', hs', hnames, hd⟩ := Dataset.exists_ofRecords_eq plan.target (plan.usable records)
  cases hs.symm.trans hs'
  have hfit := fit_trainingPart h ((Nat.le_max_right _ _).trans hn) ha hnames now
  rw [← rows_examples, ← outcomes_examples plan s] at hfit
  rw [train_eq_fitDataset h hn hd]
  cases hk : (plan.trainingPart records).findIdx? fun r => !r.1.query.isMeasured plan.target with
  | some k =>
    rw [hk] at hfit
    exact fitDataset_of_error (divide_usable plan records s) hfit
  | none =>
    rw [hk] at hfit
    rw [fitDataset_of_ok (divide_usable plan records s) hfit]
    simp only [rows_examples, outcomes_examples, List.map_map, Dataset.size_ofExamples,
      List.length_map]
    rfl

end TrainingPlan

end QueryForecast
