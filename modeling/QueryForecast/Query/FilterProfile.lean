import QueryForecast.Json.Decoding

/-!
# Filter profiles

What an execution engine knows about the filter of a vector search before it runs: the property and
operator of its top clause, sizes, the selectivity of past filters on the property, and the state of
the system. Every field may be missing, and a historical field at zero means that nothing is known.
-/

namespace QueryForecast

/-- The category of a property or operator that was not reported. -/
def unknownCategory : String := "unknown"

/-- What is known about the filter of a vector search. -/
structure FilterProfile where
  property : String := unknownCategory
  operator : String := unknownCategory
  /-- The number of clauses in the filter. -/
  complexity : UInt32 := 1
  /-- The number of distinct values of the property. -/
  propertyCardinality : UInt64 := 0
  /-- The number of documents in the index. -/
  corpusSize : UInt64 := 0
  /-- The median selectivity of past filters on the property. -/
  pastMedian : Float := 0.0
  /-- The 95th percentile of the selectivity of past filters on the property. -/
  pastHigh : Float := 0.0
  /-- The hour of the day, 0 to 23. -/
  hour : UInt32 := 0
  /-- The day of the week, Sunday being 0. -/
  weekday : UInt32 := 0
  /-- The length of the query vector. -/
  vectorNorm : Float := 0.0
  /-- The number of components of the query vector. -/
  dimensions : UInt32 := 0
  cacheHitRate : Float := 0.0
  /-- The recent 95th percentile of query latencies, in nanoseconds. -/
  latencyHigh : Float := 0.0
  deriving DecidableEq, Repr, Inhabited

namespace FilterProfile

/-- A profile as JSON. -/
def toJson (p : FilterProfile) : Json :=
  .obj [
    ("PropertyName", .str p.property),
    ("Operator", .str p.operator),
    ("FilterComplexity", .ofNat p.complexity.toNat),
    ("PropertyCardinality", .ofNat p.propertyCardinality.toNat),
    ("CorpusSize", .ofNat p.corpusSize.toNat),
    ("HistoricalSelectivityP50", .ofFloat p.pastMedian),
    ("HistoricalSelectivityP95", .ofFloat p.pastHigh),
    ("TimeOfDayHour", .ofNat p.hour.toNat),
    ("DayOfWeek", .ofNat p.weekday.toNat),
    ("QueryVectorNorm", .ofFloat p.vectorNorm),
    ("VectorDimensions", .ofNat p.dimensions.toNat),
    ("CacheHitRateRecent", .ofFloat p.cacheHitRate),
    ("AverageQueryLatencyP95", .ofFloat p.latencyHigh)]

/-- The fields of an encoded profile. -/
def form : Json.RecordForm where
  fields := ["PropertyName", "Operator", "FilterComplexity", "PropertyCardinality", "CorpusSize",
    "HistoricalSelectivityP50", "HistoricalSelectivityP95", "TimeOfDayHour", "DayOfWeek",
    "QueryVectorNorm", "VectorDimensions", "CacheHitRateRecent", "AverageQueryLatencyP95"]

/-- Reads one field. -/
def set (name : String) (v : Json) (p : FilterProfile) : Json.Decoded FilterProfile :=
  match name with
  | "PropertyName" => do return { p with property := ← v.asCategory unknownCategory }
  | "Operator" => do return { p with operator := ← v.asCategory unknownCategory }
  | "FilterComplexity" => do return { p with complexity := ← v.asCount32 1 }
  | "PropertyCardinality" => do return { p with propertyCardinality := ← v.asCount64 }
  | "CorpusSize" => do return { p with corpusSize := ← v.asCount64 }
  | "HistoricalSelectivityP50" => do return { p with pastMedian := ← v.asMeasure }
  | "HistoricalSelectivityP95" => do return { p with pastHigh := ← v.asMeasure }
  | "TimeOfDayHour" => do return { p with hour := ← v.asCount32 0 }
  | "DayOfWeek" => do return { p with weekday := ← v.asCount32 0 }
  | "QueryVectorNorm" => do return { p with vectorNorm := ← v.asMeasure }
  | "VectorDimensions" => do return { p with dimensions := ← v.asCount32 0 }
  | "CacheHitRateRecent" => do return { p with cacheHitRate := ← v.asMeasure }
  | "AverageQueryLatencyP95" => do return { p with latencyHigh := ← v.asMeasure }
  | _ => .ok p

/-- The profile that a JSON value encodes. -/
def ofJson (v : Json) : Json.Decoded FilterProfile :=
  v.asRecord form set {}

end FilterProfile

end QueryForecast
