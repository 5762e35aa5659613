import QueryForecast.Log.Reading
import QueryForecast.Model.Artifact
import QueryForecast.Training.Dataset
import QueryForecast.Training.Plan

/-!
# Training runs

A run makes a dataset of the usable records, holds out a part of it, fits a model to the rest and
judges it on what was held out. `trainFromLog` starts from a log in a storage and leaves the model's
artifact there; a run that fails leaves at most directories that the artifact was to lie in.
-/

namespace QueryForecast

open Time

/-- What a training run did, and how well. -/
structure TrainingReport where
  target : Target
  /-- The usable records. -/
  used : Nat
  /-- The records and log lines that are not usable. -/
  skipped : Nat
  /-- The examples that the model was fitted to. -/
  trainingExamples : Nat
  /-- The examples that it was judged on. -/
  heldOutExamples : Nat
  quality : Quality
  /-- The features with their shares in the gain, the greatest first. -/
  importance : List (String × Float)
  /-- The path of the artifact, when the model was saved. -/
  modelPath : Option String
  /-- Whether the error stays below the plan's goal, when there is one for the target. -/
  meetsGoal : Option Bool

namespace TrainingPlan

/-- The failure of a plan that cannot be carried out. -/
def checked (p : TrainingPlan) : Except Failure Unit :=
  match p.fault? with
  | some fault => .error (.invalidArgument fault.message)
  | none => .ok ()

/-- The records with a valid outcome, each with it. -/
def usable (p : TrainingPlan) (records : List ExecutionRecord) : List (ExecutionRecord × Float) :=
  records.filterMap fun record => (record.outcome? p.target).map fun outcome => (record, outcome)

/-- Whether an error stays below the goal; only selectivity models have one. -/
def meetsGoal (p : TrainingPlan) (q : Quality) : Option Bool :=
  match p.target with
  | .selectivity => some (decide (q.mae < p.maeGoal))
  | .cardinality => none

/-- Fits a model to a dataset, less what is held out, and judges it on the latter. -/
def fitDataset (p : TrainingPlan) (d : Dataset) (skipped : Nat) (now : Timestamp) :
    Except Failure (Model × TrainingReport) := do
  let (training, heldOut) := d.divide p.heldOutFraction p.divisionSeed
  let model ← Model.fit p.target p.settings d.schema training.rows training.outcomes now
  let quality ← model.evaluate heldOut.rows heldOut.outcomes
  let importance ← model.importance
  return (model.withQuality quality,
    { target := p.target
      used := d.size
      skipped := skipped
      trainingExamples := training.size
      heldOutExamples := heldOut.size
      quality := quality
      importance := importance
      modelPath := none
      meetsGoal := p.meetsGoal quality })

/-- Trains on the usable ones of some records. -/
def train (p : TrainingPlan) (records : List ExecutionRecord) (now : Timestamp) :
    Except Failure (Model × TrainingReport) := do
  p.checked
  let usable := p.usable records
  if usable.length < p.requiredRecords then
    throw (.insufficientData usable.length p.requiredRecords)
  let d ← (Dataset.ofRecords p.target usable).mapError SchemaFault.toFailure
  p.fitDataset d (records.length - usable.length) now

/-- Trains on the log at a path. -/
def trainOnLog (p : TrainingPlan) (s : Storage) (logPath : String) (now : Timestamp) :
    Except Failure (Model × TrainingReport) := do
  p.checked
  let log ← LogReading.load p.target s logPath
  let (model, report) ← p.train log.records now
  return (model, { report with skipped := report.skipped + log.skipped })

/-- Trains on the log at one path and saves the model at another; and what is left of the
storage. -/
def trainFromLog (p : TrainingPlan) (s : Storage) (logPath modelPath : String) (now : Timestamp) :
    Except Failure TrainingReport × Storage :=
  match p.trainOnLog s logPath now with
  | .error failure => (.error failure, s)
  | .ok (model, report) =>
    match model.save s modelPath with
    | (.ok _, s) => (.ok { report with modelPath := some modelPath }, s)
    | (.error failure, s) => (.error failure, s)

end TrainingPlan

end QueryForecast
