import QueryForecast.Boosting.Ensemble
import QueryForecast.Feature.Schema
import QueryForecast.Model.Quality
import QueryForecast.Query.Basic
import QueryForecast.Target

/-!
# Models

A model is an ensemble with all that is needed to serve it: the columns it was fitted on, its
target, and how it was fitted and how well. A model that was not fitted has neither columns nor
trees, and refuses to predict.
-/

namespace QueryForecast

open Time

/-- The version of the artifact format. -/
def formatVersion : UInt32 := 1

/-- An ensemble with what is needed to serve it. -/
structure Model where
  formatVersion : UInt32
  target : Target
  schema : Option Schema
  ensemble : Option Ensemble
  trained : Bool
  settings : Settings
  quality : Option Quality
  /-- The number of rows that the model was fitted on. -/
  trainingRows : Nat
  trainedAt : Option Timestamp

namespace Model

/-- A model that was not fitted. -/
def untrained (t : Target) (settings : Settings) : Model where
  formatVersion := QueryForecast.formatVersion
  target := t
  schema := none
  ensemble := none
  trained := false
  settings := settings
  quality := none
  trainingRows := 0
  trainedAt := none

/-- Whether a model can predict. -/
def isTrained (m : Model) : Bool :=
  m.trained && m.ensemble.isSome && m.schema.isSome

/-- The columns and trees of a model that can predict. -/
def fitted? (m : Model) : Option (Schema × Ensemble) :=
  match m.schema, m.ensemble with
  | some schema, some ensemble => if m.trained then some (schema, ensemble) else none
  | _, _ => none

/-- The columns and trees of a model, or the failure that it has none. -/
def fitted (m : Model) : Except Failure (Schema × Ensemble) :=
  match m.fitted? with
  | some parts => .ok parts
  | none => .error .notTrained

/-- The model of an ensemble that was fitted to some rows. -/
def ofEnsemble (t : Target) (settings : Settings) (schema : Schema) (ensemble : Ensemble)
    (rows : Nat) (now : Timestamp) : Model where
  formatVersion := QueryForecast.formatVersion
  target := t
  schema := some schema
  ensemble := some ensemble
  trained := true
  settings := settings
  quality := none
  trainingRows := rows
  trainedAt := some now

/-- Fits a model to rows that are aligned to a schema and the outcomes observed for them. -/
def fit (t : Target) (settings : Settings) (schema : Schema) (rows : List Row)
    (outcomes : List Float) (now : Timestamp) : Except Failure Model :=
  match rows.find? fun row => row.size ≠ schema.width with
  | some row =>
    .error (.invalidArgument ("row has " ++ toString row.size ++ " columns, schema has " ++
      toString schema.width))
  | none =>
    match Ensemble.fit settings rows (outcomes.map t.toScore) with
    | .ok ensemble => .ok (ofEnsemble t settings schema ensemble rows.length now)
    | .error fault => .error fault.toFailure

/-- The model with its quality noted. -/
def withQuality (m : Model) (q : Quality) : Model :=
  { m with quality := some q }

/-- The score of an aligned row, on the scale that the model is fitted on. -/
def score (m : Model) (row : Row) : Except Failure Float := do
  let (_, ensemble) ← m.fitted
  return ensemble.predict row

/-- The estimate for an aligned row. -/
def estimateRow (m : Model) (row : Row) : Except Failure Float := do
  match m.target.ofScore? (← m.score row) with
  | some estimate => return estimate
  | none => throw (.invalidArgument "model produced a NaN score")

/-- The estimate for a feature vector, which is aligned to the model's columns. -/
def estimate (m : Model) (v : FeatureVector) : Except Failure Float := do
  let (schema, _) ← m.fitted
  m.estimateRow (schema.align v).toArray

/-- The errors of a model on aligned rows and the outcomes observed for them. -/
def evaluate (m : Model) (rows : List Row) (outcomes : List Float) : Except Failure Quality := do
  let (_, ensemble) ← m.fitted
  return Quality.compute (rows.map ensemble.predict) (outcomes.map m.target.toScore)

/-- The features of a model with their shares in its gain, the greatest first. -/
def importance (m : Model) : Except Failure (List (String × Float)) := do
  let (schema, ensemble) ← m.fitted
  return rankImportance schema.names ensemble.importances

end Model

end QueryForecast
