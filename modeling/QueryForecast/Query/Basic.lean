import QueryForecast.Query.Filter
import QueryForecast.Query.FilterProfile
import QueryForecast.Query.TableStats
import QueryForecast.Time.Printing

/-!
# Queries

A query as the estimator sees it. Joins, aggregations and sort keys are opaque: only how many there
are matters. Everything but the filters may be absent.
-/

namespace QueryForecast

open Time

/-- A query awaiting an estimate. -/
structure Query where
  filters : List Filter := []
  joins : List Json := []
  aggregations : List Json := []
  sortKeys : List Json := []
  tableStats : Option TableStats := none
  /-- Whether an index is available, whatever the table statistics say. -/
  hasIndexes : Option Bool := none
  /-- When the query was issued. -/
  timestamp : Option Timestamp := none
  /-- What is known about the query's filter, for selectivity estimates. -/
  profile : Option FilterProfile := none
  deriving Repr, Inhabited

namespace Query

/-- A query that carries a filter profile and nothing else. -/
def ofProfile (p : FilterProfile) : Query :=
  { profile := some p }

/-- The row count of the scanned table, if it was reported. -/
def rowCount? (q : Query) : Option UInt64 :=
  q.tableStats.map (·.rowCount)

/-- The query with one more filter. -/
def addFilter (q : Query) (f : Filter) : Query :=
  { q with filters := q.filters ++ [f] }

/-- The query with one more join. -/
def addJoin (q : Query) (join : Json) : Query :=
  { q with joins := q.joins ++ [join] }

/-- The query with one more aggregation. -/
def addAggregation (q : Query) (aggregation : Json) : Query :=
  { q with aggregations := q.aggregations ++ [aggregation] }

/-- The query with one more sort key. -/
def addSortKey (q : Query) (key : Json) : Query :=
  { q with sortKeys := q.sortKeys ++ [key] }

/-- A timestamp as JSON. -/
def timestampToJson (t : Timestamp) : Json := .str t.text

/-- The timestamp that a JSON value encodes. -/
def timestampOfJson (v : Json) : Json.Decoded Timestamp := do
  match Timestamp.parse? (← v.asString) with
  | some t => return t
  | none => throw .shape

/-- The entries of an encoded query; absent parts are left out. -/
def toEntries (q : Query) : Json.Entries :=
  [("filters", .arr (q.filters.map Filter.toJson)),
    ("joins", .arr q.joins),
    ("aggregations", .arr q.aggregations),
    ("sort", .arr q.sortKeys)]
  ++ Json.optionalEntry "table_stats" TableStats.toJson q.tableStats
  ++ Json.optionalEntry "has_indexes" Json.bool q.hasIndexes
  ++ Json.optionalEntry "timestamp" timestampToJson q.timestamp
  ++ Json.optionalEntry "features" FilterProfile.toJson q.profile

/-- A query as JSON. -/
def toJson (q : Query) : Json := .obj q.toEntries

/-- The fields of an encoded query. -/
def form : Json.RecordForm where
  fields := ["filters", "joins", "aggregations", "sort", "table_stats", "has_indexes", "timestamp",
    "features"]

/-- Reads one field. -/
def set (name : String) (v : Json) (q : Query) : Json.Decoded Query :=
  match name with
  | "filters" => do return { q with filters := ← v.asList Filter.ofJson }
  | "joins" => do return { q with joins := ← v.asList .ok }
  | "aggregations" => do return { q with aggregations := ← v.asList .ok }
  | "sort" => do return { q with sortKeys := ← v.asList .ok }
  | "table_stats" => do return { q with tableStats := ← v.asOption TableStats.ofJson }
  | "has_indexes" => do return { q with hasIndexes := ← v.asOption Json.asBool }
  | "timestamp" => do return { q with timestamp := ← v.asOption timestampOfJson }
  | "features" => do return { q with profile := ← v.asOption FilterProfile.ofJson }
  | _ => .ok q

/-- The query that a JSON value encodes. -/
def ofJson (v : Json) : Json.Decoded Query :=
  v.asRecord form set {}

end Query

end QueryForecast
