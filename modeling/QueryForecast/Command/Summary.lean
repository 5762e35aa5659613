import QueryForecast.Training.Run

/-!
# The summary of a training run

What the training command prints after a run.
-/

namespace QueryForecast

open Decimal

/-- How many features a summary lists. -/
def listedFeatures : Nat := 10

/-- A text with blanks in front, up to the given width. -/
def alignRight (width : Nat) (text : String) : String :=
  String.ofList (List.replicate (width - text.length) ' ') ++ text

/-- A text with blanks behind it, up to the given width. -/
def alignLeft (width : Nat) (text : String) : String :=
  text ++ String.ofList (List.replicate (width - text.length) ' ')

namespace TrainingReport

/-- The line of a feature, given its place in the ranking. -/
def featureLine (place : Nat) (feature : String) (importance : Float) : String :=
  "  " ++ alignRight 2 (toString place) ++ ". " ++ alignLeft 32 feature ++ " " ++
    fixedText 4 importance

/-- The lines of features from a place in the ranking on. -/
def featureLines (place : Nat) : List (String × Float) → List String
  | [] => []
  | (feature, importance) :: rest =>
    featureLine place feature importance :: featureLines (place + 1) rest

/-- What the errors of a model for a target are measured in, if that is not the outcome itself. -/
def scaleNote : Target → String
  | .cardinality => " (log space)"
  | .selectivity => ""

/-- The lines about the errors of the model. -/
def qualityLines (r : TrainingReport) : List String :=
  ["", "Held-out metrics" ++ scaleNote r.target ++ ":",
    "  MAE:  " ++ fixedText 4 r.quality.mae,
    "  RMSE: " ++ fixedText 4 r.quality.rmse,
    "  R²:   " ++ fixedText 4 r.quality.r2]
  ++ (if r.meetsGoal = some false then ["  warning: MAE is above the accuracy target"] else [])

/-- The lines about the file that the model was written to. -/
def deploymentLines (path : String) : List String :=
  ["", "Model written to " ++ path,
    "To deploy:",
    "  1. Copy the model next to the serving process",
    "  2. Load it with Estimator::open(EstimatorConfig::default(), Path::new(\"" ++ path ++ "\"))",
    "  3. Swap in retrained models with Estimator::load_model without a restart"]

/-- The lines of a summary. -/
def summaryLines (r : TrainingReport) : List String :=
  ["Training complete (" ++ r.target.name ++ " model)",
    "  records: " ++ toString r.used ++ " used, " ++ toString r.skipped ++ " skipped",
    "  split:   " ++ toString r.trainingExamples ++ " train / " ++ toString r.heldOutExamples ++
      " test"]
  ++ r.qualityLines
  ++ ["", "Top features:"]
  ++ featureLines 1 (r.importance.take listedFeatures)
  ++ (r.modelPath.map deploymentLines).getD []

/-- The summary of a training run. -/
def summary (r : TrainingReport) : String :=
  String.join (r.summaryLines.map (· ++ "\n"))

end TrainingReport

end QueryForecast
