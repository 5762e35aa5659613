import QueryForecast.Decimal.Layout
import QueryForecast.Error
import QueryForecast.Json.Decoding
import QueryForecast.Numeric.Exponential

/-!
# Prediction targets

A model predicts the number of rows a query returns or the fraction of a corpus that passes a
filter. The target says which outcomes are valid, on which scale they are fitted, and into which
range an estimate is moved: row counts are fitted as `ln (1 + y)`, fractions as they are.
-/

namespace QueryForecast

open Numeric Decimal

/-- What a model predicts. -/
inductive Target where
  | cardinality
  | selectivity
  deriving DecidableEq, Repr

/-- The smallest row count ever estimated. -/
def minCardinality : Float := 1.0

/-- The largest row count that a model estimates. -/
def maxCardinality : Float := 10000000.0

/-- The smallest fraction ever estimated. -/
def minSelectivity : Float := 0.001

/-- Why an outcome is not valid for a target. -/
inductive OutcomeFault where
  | missing
  | notFinite
  | negative (x : Float)
  | aboveOne (x : Float)
  deriving DecidableEq, Repr

namespace Target

/-- The name of a target. -/
def name : Target → String
  | .cardinality => "cardinality"
  | .selectivity => "selectivity"

/-- The target with the given name. -/
def ofName? : String → Option Target
  | "cardinality" => some .cardinality
  | "selectivity" => some .selectivity
  | _ => none

theorem ofName?_name (t : Target) : ofName? t.name = some t := by
  cases t <;> rfl

/-- The record field that holds the outcome. -/
def outcomeField : Target → String
  | .cardinality => "actual_cardinality"
  | .selectivity => "actual_selectivity"

/-- The record fields that a log line must have. -/
def requiredFields : Target → List String
  | .cardinality => ["filters", "joins", "aggregations", "table_stats", "actual_cardinality"]
  | .selectivity => ["features", "actual_selectivity"]

/-- An outcome on the scale that models are fitted on. -/
def toScore : Target → Float → Float
  | .cardinality, y => logOnePlus y
  | .selectivity, y => y

/-- The estimate that a model's score stands for, within the target's range; none for an undefined
score. -/
def ofScore? (t : Target) (score : Float) : Option Float :=
  if score.isNaN then none
  else
    match t with
    | .cardinality => some (clamp minCardinality maxCardinality (expMinusOne score))
    | .selectivity => some (clamp minSelectivity 1.0 score)

/-- What is wrong with an outcome, if anything. -/
def outcomeFault? (t : Target) (y : Float) : Option OutcomeFault :=
  if ¬ y.isFinite then some .notFinite
  else if y < 0.0 then some (.negative y)
  else if t = .selectivity ∧ 1.0 < y then some (.aboveOne y)
  else none

/-- Whether an outcome is valid. -/
def accepts (t : Target) (y : Float) : Bool :=
  (t.outcomeFault? y).isNone

/-- The text of an outcome fault. -/
def faultMessage (t : Target) : OutcomeFault → String
  | .missing => "missing field `" ++ t.outcomeField ++ "`"
  | .notFinite => t.outcomeField ++ " must be finite"
  | .negative x => t.outcomeField ++ " must be non-negative, got " ++ messageText x
  | .aboveOne x => t.outcomeField ++ " must be within [0, 1], got " ++ messageText x

/-- The target that a text names, in any mixture of cases. -/
def parse (text : String) : Except Failure Target :=
  let word := String.ofList (text.toList.map Char.toLower)
  match ofName? word with
  | some t => .ok t
  | none =>
    .error (.invalidArgument
      ("unknown target '" ++ word ++ "', expected 'cardinality' or 'selectivity'"))

/-- A target as JSON. -/
def toJson (t : Target) : Json := .str t.name

/-- The target that a JSON value encodes. -/
def ofJson (v : Json) : Json.Decoded Target := do
  match ofName? (← v.asName) with
  | some t => return t
  | none => throw .shape

theorem ofJson_toJson (t : Target) : ofJson t.toJson = .ok t := by
  cases t <;> rfl

end Target

end QueryForecast
