import QueryForecast.Numeric.Order
import QueryForecast.Query.FilterProfile
import QueryForecast.Time.Timestamp

/-!
# Selectivity history

What past filters on each property have passed. A history fills in the historical fields of a filter
profile that its sender left at zero.
-/

namespace QueryForecast

open Numeric Time

/-- How many observations are kept for a property. -/
def maxSamples : Nat := 100

/-- The last observations of one property. -/
structure PropertyHistory where
  /-- The greatest number of distinct values that was reported. -/
  cardinality : UInt64 := 0
  /-- The last observed selectivities, oldest first. -/
  samples : List Float := []
  /-- The number of observations, also of those that are no longer kept. -/
  observations : Nat := 0
  updated : Option Timestamp := none
  deriving DecidableEq, Repr, Inhabited

namespace PropertyHistory

/-- The history after one more observation. -/
def observe (h : PropertyHistory) (selectivity : Float) (cardinality : UInt64) (now : Timestamp) :
    PropertyHistory where
  cardinality := max h.cardinality cardinality
  samples := (h.samples ++ [selectivity]).drop (h.samples.length + 1 - maxSamples)
  observations := h.observations + 1
  updated := some now

/-- The median of the kept selectivities. -/
def median (h : PropertyHistory) : Float := percentile h.samples 0.5

/-- The 95th percentile of the kept selectivities. -/
def high (h : PropertyHistory) : Float := percentile h.samples 0.95

end PropertyHistory

/-- The histories of properties; no property occurs twice. -/
structure History where
  entries : List (String × PropertyHistory) := []
  deriving DecidableEq, Repr, Inhabited

namespace History

/-- The history of a property, if a filter on it was observed. -/
def get? (h : History) (property : String) : Option PropertyHistory :=
  h.entries.lookup property

/-- Changes the history of a property in a list of entries, starting from an empty one. -/
def update (property : String) (change : PropertyHistory → PropertyHistory) :
    List (String × PropertyHistory) → List (String × PropertyHistory)
  | [] => [(property, change {})]
  | (property', h) :: rest =>
    if property' = property then (property', change h) :: rest
    else (property', h) :: update property change rest

/-- The histories after an observation on a property. -/
def observe (h : History) (property : String) (selectivity : Float) (cardinality : UInt64)
    (now : Timestamp) : History :=
  ⟨update property (·.observe selectivity cardinality now) h.entries⟩

/-- The profile with the historical fields that are zero taken from the property's history. -/
def fill (h : History) (p : FilterProfile) : FilterProfile :=
  match h.get? p.property with
  | none => p
  | some past =>
    { p with
      propertyCardinality := if p.propertyCardinality = 0 then past.cardinality
        else p.propertyCardinality
      pastMedian := if p.pastMedian == 0.0 then past.median else p.pastMedian
      pastHigh := if p.pastHigh == 0.0 then past.high else p.pastHigh }

end History

end QueryForecast
