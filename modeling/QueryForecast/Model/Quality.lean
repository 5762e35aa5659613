import QueryForecast.Json.Decoding
import QueryForecast.Json.Outline
import QueryForecast.Numeric.Order

/-!
# Quality of a model

How far predictions are from observations on rows that were held out of a fit, and how the columns
of a model rank by importance.
-/

namespace QueryForecast

open Numeric

/-- Errors of a model on held-out rows, on the scale it is fitted on. -/
structure Quality where
  /-- The mean absolute error. -/
  mae : Float := 0.0
  /-- The root of the mean squared error. -/
  rmse : Float := 0.0
  /-- The share of the variance that the model explains. -/
  r2 : Float := 0.0
  samples : Nat := 0
  deriving DecidableEq, Repr, Inhabited

namespace Quality

/-- The errors of predictions against targets, pair by pair. When the targets do not vary, the
explained share is one for perfect predictions and zero for others. -/
def compute (predictions targets : List Float) : Quality :=
  let pairs := predictions.zip targets
  if pairs.isEmpty then {}
  else
    let n := ofNat pairs.length
    let mae := sum (pairs.map fun (p, t) => (p - t).abs) / n
    let squares := sum (pairs.map fun (p, t) => (p - t) * (p - t))
    let mean := sum (pairs.map (·.2)) / n
    let spread := sum (pairs.map fun (_, t) => (t - mean) * (t - mean))
    { mae := mae
      rmse := (squares / n).sqrt
      r2 := if 0.0 < spread then 1.0 - squares / spread
        else if squares == 0.0 then 1.0 else 0.0
      samples := pairs.length }

/-- How much an estimate of the model is to be trusted: `1 / (1 + mae)`, at least 0.01. -/
def confidence (q : Quality) : Float :=
  atLeast 0.01 (1.0 / (1.0 + q.mae))

/-- The errors as JSON. -/
def toJson (q : Quality) : Json :=
  .obj [("mae", .ofFloat q.mae), ("rmse", .ofFloat q.rmse), ("r2", .ofFloat q.r2),
    ("samples", .ofNat q.samples)]

/-- The fields of encoded errors. -/
def form : Json.RecordForm where
  fields := ["mae", "rmse", "r2", "samples"]
  required := ["mae", "rmse", "r2", "samples"]
  leading := 4

/-- How the errors are read from text. -/
def outline : Json.Outline :=
  .ofFields form.fields

/-- Reads one field. -/
def set (name : String) (v : Json) (q : Quality) : Json.Decoded Quality :=
  match name with
  | "mae" => do return { q with mae := ← v.asFloat }
  | "rmse" => do return { q with rmse := ← v.asFloat }
  | "r2" => do return { q with r2 := ← v.asFloat }
  | "samples" => do return { q with samples := ← v.asNat }
  | _ => .ok q

/-- The errors that a JSON value encodes. -/
def ofJson (v : Json) : Json.Decoded Quality :=
  v.asRecord form set {}

end Quality

/-- Names with their importances, the most important first. Equally important names keep their
order. -/
def rankImportance (names : List String) (importances : List Float) : List (String × Float) :=
  (names.zip importances).mergeSort fun x y => precedes y.2 x.2

end QueryForecast
