import QueryForecast.Query.Strategy

/-!
# Estimates

What an estimator answers: a number, and whether a model or a closed form it comes from.
-/

namespace QueryForecast

/-- Where an estimate comes from. -/
inductive EstimateSource where
  | model
  | fallback
  deriving DecidableEq, Repr

namespace EstimateSource

/-- The name of a source. -/
def name : EstimateSource → String
  | .model => "model"
  | .fallback => "fallback"

/-- The source with the given name. -/
def ofName? : String → Option EstimateSource
  | "model" => some .model
  | "fallback" => some .fallback
  | _ => none

/-- A source as JSON. -/
def toJson (s : EstimateSource) : Json := .str s.name

/-- The source that a JSON value encodes. -/
def ofJson (v : Json) : Json.Decoded EstimateSource := do
  match ofName? (← v.asName) with
  | some s => return s
  | none => throw .shape

theorem ofJson_toJson (s : EstimateSource) : ofJson s.toJson = .ok s := by
  cases s <;> rfl

end EstimateSource

/-- An estimated row count. -/
structure CardinalityEstimate where
  rows : UInt64
  source : EstimateSource
  deriving DecidableEq, Repr

/-- An estimated selectivity, with the strategy that it speaks for. -/
structure SelectivityEstimate where
  /-- The fraction of the corpus that is expected to pass. -/
  selectivity : Float
  /-- How much the estimate is to be trusted. -/
  confidence : Float
  source : EstimateSource
  strategy : Strategy
  deriving DecidableEq, Repr

end QueryForecast
