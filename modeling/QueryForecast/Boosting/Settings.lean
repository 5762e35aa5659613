import QueryForecast.Decimal.Layout
import QueryForecast.Error
import QueryForecast.Json.Decoding
import QueryForecast.Json.Outline

/-!
# Settings of boosting

The hyperparameters of a fit, the ranges they must lie in, and their encoding.
-/

namespace QueryForecast

open Decimal

/-- The hyperparameters of a fit. Counts are numbers without a limit, and there is room for as many
trees and rows as they ask for: what a machine cannot hold is not modelled. -/
structure Settings where
  /-- The greatest depth of a tree. -/
  maxDepth : Nat := 6
  /-- The number of trees. -/
  rounds : Nat := 100
  /-- The factor on every leaf. -/
  learningRate : Float := 0.1
  /-- The fraction of the rows that each tree is grown on. -/
  rowFraction : Float := 0.8
  /-- The fraction of the columns that each tree may split on. -/
  columnFraction : Float := 0.8
  /-- The weight that pulls leaves to zero. -/
  lambda : Float := 1.0
  /-- The least number of rows on either side of a split. -/
  minLeafRows : Nat := 1
  /-- The seed of the row and column samples. -/
  seed : UInt64 := 42
  deriving DecidableEq, Repr, Inhabited

/-- Why settings are out of range. -/
inductive SettingsFault where
  | maxDepth
  | rounds
  | learningRate (x : Float)
  | rowFraction (x : Float)
  | columnFraction (x : Float)
  | lambda (x : Float)
  | minLeafRows
  deriving DecidableEq, Repr

/-- The text of a settings fault. -/
def SettingsFault.message : SettingsFault → String
  | .maxDepth => "max_depth must be at least 1"
  | .rounds => "n_estimators must be at least 1"
  | .learningRate x => "learning_rate must be positive, got " ++ messageText x
  | .rowFraction x => "subsample must be within (0, 1], got " ++ messageText x
  | .columnFraction x => "colsample must be within (0, 1], got " ++ messageText x
  | .lambda x => "lambda must be non-negative, got " ++ messageText x
  | .minLeafRows => "min_samples_leaf must be at least 1"

namespace Settings

/-- Whether a number is a fraction above zero. -/
def isFraction (x : Float) : Bool :=
  0.0 < x && x ≤ 1.0

/-- The first setting that is out of its range. -/
def fault? (s : Settings) : Option SettingsFault :=
  if s.maxDepth = 0 then some .maxDepth
  else if s.rounds = 0 then some .rounds
  else if ¬ (s.learningRate.isFinite ∧ 0.0 < s.learningRate) then
    some (.learningRate s.learningRate)
  else if ¬ isFraction s.rowFraction then some (.rowFraction s.rowFraction)
  else if ¬ isFraction s.columnFraction then some (.columnFraction s.columnFraction)
  else if ¬ (s.lambda.isFinite ∧ 0.0 ≤ s.lambda) then some (.lambda s.lambda)
  else if s.minLeafRows = 0 then some .minLeafRows
  else none

/-- The failure of settings that are out of range. -/
def checked (s : Settings) : Except Failure Unit :=
  match s.fault? with
  | some fault => .error (.invalidArgument fault.message)
  | none => .ok ()

/-- Settings as JSON. -/
def toJson (s : Settings) : Json :=
  .obj [
    ("max_depth", .ofNat s.maxDepth),
    ("n_estimators", .ofNat s.rounds),
    ("learning_rate", .ofFloat s.learningRate),
    ("subsample", .ofFloat s.rowFraction),
    ("colsample", .ofFloat s.columnFraction),
    ("lambda", .ofFloat s.lambda),
    ("min_samples_leaf", .ofNat s.minLeafRows),
    ("seed", .ofNat s.seed.toNat)]

/-- The fields of encoded settings. -/
def form : Json.RecordForm where
  fields := ["max_depth", "n_estimators", "learning_rate", "subsample", "colsample", "lambda",
    "min_samples_leaf", "seed"]

/-- How settings are read from text. -/
def outline : Json.Outline :=
  .ofFields form.fields

/-- Reads one field. -/
def set (name : String) (v : Json) (s : Settings) : Json.Decoded Settings :=
  match name with
  | "max_depth" => do return { s with maxDepth := ← v.asNat }
  | "n_estimators" => do return { s with rounds := ← v.asNat }
  | "learning_rate" => do return { s with learningRate := ← v.asFloat }
  | "subsample" => do return { s with rowFraction := ← v.asFloat }
  | "colsample" => do return { s with columnFraction := ← v.asFloat }
  | "lambda" => do return { s with lambda := ← v.asFloat }
  | "min_samples_leaf" => do return { s with minLeafRows := ← v.asNat }
  | "seed" => do return { s with seed := UInt64.ofNat (← v.asNat) }
  | _ => .ok s

/-- The settings that a JSON value encodes. -/
def ofJson (v : Json) : Json.Decoded Settings :=
  v.asRecord form set {}

end Settings

end QueryForecast
