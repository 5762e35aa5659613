import QueryForecast.Json.Decoding

/-!
# Filter strategies

A vector search can apply its filter first and search what is left, or search first and drop what
the filter refuses. Filtering first pays when few documents pass.
-/

namespace QueryForecast

/-- How a vector search applies its filter. -/
inductive Strategy where
  | preFilter
  | postFilter
  deriving DecidableEq, Repr

/-- The selectivity below which filtering first is taken for the better choice when latencies were
not measured. -/
def preFilterLabelThreshold : Float := 0.1

namespace Strategy

/-- The name of a strategy. -/
def name : Strategy → String
  | .preFilter => "pre_filter"
  | .postFilter => "post_filter"

/-- The strategy with the given name. -/
def ofName? : String → Option Strategy
  | "pre_filter" => some .preFilter
  | "post_filter" => some .postFilter
  | _ => none

/-- The strategy for an estimated selectivity: filter first below the threshold. -/
def forSelectivity (threshold selectivity : Float) : Strategy :=
  if selectivity < threshold then .preFilter else .postFilter

/-- The strategy that would have been the better one. Measured latencies, in nanoseconds, decide
when both are known; otherwise the observed selectivity does. -/
def best (selectivity : Float) (preLatency postLatency : Option Nat) : Strategy :=
  match preLatency, postLatency with
  | some pre, some post => if pre < post then .preFilter else .postFilter
  | _, _ => forSelectivity preFilterLabelThreshold selectivity

/-- A strategy as JSON. -/
def toJson (s : Strategy) : Json := .str s.name

/-- The strategy that a JSON value encodes. -/
def ofJson (v : Json) : Json.Decoded Strategy := do
  match ofName? (← v.asName) with
  | some s => return s
  | none => throw .shape

theorem ofJson_toJson (s : Strategy) : ofJson s.toJson = .ok s := by
  cases s <;> rfl

end Strategy

end QueryForecast
