import QueryForecast.Json.Decoding
import QueryForecast.Log.Backlog

/-!
# Settings of an estimator

How an estimator serves, and the encoding of these settings.
-/

namespace QueryForecast

open Decimal

/-- The selectivity below which an estimator that is not told otherwise filters first. -/
def defaultPreFilterThreshold : Float := 0.08

/-- How an estimator serves. -/
structure EstimatorSettings where
  /-- Whether strategies are chosen from estimates at all. -/
  enabled : Bool := true
  /-- The estimated selectivity below which filtering first is chosen. -/
  preFilterThreshold : Float := defaultPreFilterThreshold
  /-- Whether a query without a timestamp is taken to be issued now. -/
  stampsMissingTime : Bool := true
  /-- How many observations are kept for retraining. -/
  backlogCapacity : Nat := Backlog.defaultCapacity
  deriving DecidableEq, Repr, Inhabited

namespace EstimatorSettings

/-- Settings as JSON. -/
def toJson (s : EstimatorSettings) : Json :=
  .obj [
    ("enabled", .bool s.enabled),
    ("prefilter_threshold", .ofFloat s.preFilterThreshold),
    ("stamp_missing_time", .bool s.stampsMissingTime),
    ("observation_capacity", .ofNat s.backlogCapacity)]

/-- The fields of encoded settings. -/
def form : Json.RecordForm where
  fields := ["enabled", "prefilter_threshold", "stamp_missing_time", "observation_capacity"]

/-- Reads one field. -/
def set (name : String) (v : Json) (s : EstimatorSettings) : Json.Decoded EstimatorSettings :=
  match name with
  | "enabled" => do return { s with enabled := ← v.asBool }
  | "prefilter_threshold" => do return { s with preFilterThreshold := ← v.asFloat }
  | "stamp_missing_time" => do return { s with stampsMissingTime := ← v.asBool }
  | "observation_capacity" => do return { s with backlogCapacity := ← v.asNat }
  | _ => .ok s

/-- The settings that a JSON value encodes. -/
def ofJson (v : Json) : Json.Decoded EstimatorSettings :=
  v.asRecord form set {}

/-- Settings as the summary of an estimator shows them. -/
def inspection (s : EstimatorSettings) : String :=
  "EstimatorConfig \x7b enabled: " ++ toString s.enabled
    ++ ", prefilter_threshold: " ++ String.ofList (Layout.inspection.write s.preFilterThreshold)
    ++ ", stamp_missing_time: " ++ toString s.stampsMissingTime
    ++ ", observation_capacity: " ++ toString s.backlogCapacity ++ " \x7d"

end EstimatorSettings

end QueryForecast
