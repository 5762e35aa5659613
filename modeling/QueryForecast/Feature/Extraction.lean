import QueryForecast.Feature.Correlation
import QueryForecast.Feature.Heuristic
import QueryForecast.Feature.Vector

/-!
# Features of queries

How a query becomes a feature vector. For row counts these are the sizes and statistics of the
query; for selectivities the numbers of the filter profile, plus one column for the property and one
for the operator.
-/

namespace QueryForecast

open Numeric Time

/-- The features for row counts, in the order of a model's columns. -/
def cardinalityFeatures : List String :=
  ["num_filters", "num_joins", "num_aggregations", "num_sort_keys", "filter_selectivity",
    "table_size", "table_ndv", "hour_of_day", "day_of_week", "correlated_columns",
    "complexity_score", "has_indexes"]

/-- The numeric features for selectivities, in the order of a model's columns. -/
def selectivityFeatures : List String :=
  ["property_cardinality", "corpus_size", "historical_selectivity_p50",
    "historical_selectivity_p95", "time_of_day_hour", "day_of_week", "query_vector_norm",
    "vector_dimensions", "filter_complexity", "cache_hit_rate_recent",
    "average_query_latency_p95"]

/-- The features that every vector for a target has. -/
def Target.baseFeatures : Target → List String
  | .cardinality => cardinalityFeatures
  | .selectivity => selectivityFeatures

/-- The column of a property. -/
def propertyColumn (property : String) : String := "property_" ++ property

/-- The column of an operator. -/
def operatorColumn (operator : String) : String := "operator_" ++ operator

namespace Query

/-- Whether an index helps the query: as the query says, or when a filtered column has one. -/
def usesIndex (q : Query) : Bool :=
  match q.hasIndexes with
  | some explicit => explicit
  | none =>
    match q.tableStats with
    | some stats => q.filters.any fun f => stats.indexedColumns.contains f.column
    | none => false

/-- The strongest correlation between two filtered columns; zero when no coefficients are known. -/
def correlation (q : Query) (known : Option Correlations) : Float :=
  match known with
  | some c => c.strongest (q.filters.map (·.column))
  | none => 0.0

/-- The values of the features for row counts, in order. -/
def cardinalityValues (q : Query) (known : Option Correlations) : List Float :=
  let stats := q.tableStats.getD {}
  [ofNat q.filters.length,
    ofNat q.joins.length,
    ofNat q.aggregations.length,
    ofNat q.sortKeys.length,
    Heuristic.filterSelectivity q.filters,
    stats.rowCount.toFloat,
    stats.distinctCount.toFloat,
    ofNat ((q.timestamp.map (·.hour)).getD 0),
    ofNat ((q.timestamp.map fun t => weekdayFromMonday t.day).getD 0),
    q.correlation known,
    Heuristic.complexity q,
    if q.usesIndex then 1.0 else 0.0]

/-- The features of a query for row counts. -/
def cardinalityVector (q : Query) (known : Option Correlations) : FeatureVector :=
  .ofList (cardinalityFeatures.zip (q.cardinalityValues known))

end Query

namespace FilterProfile

/-- The values of the numeric features for selectivities, in order. -/
def values (p : FilterProfile) : List Float :=
  [p.propertyCardinality.toFloat,
    p.corpusSize.toFloat,
    p.pastMedian,
    p.pastHigh,
    p.hour.toFloat,
    p.weekday.toFloat,
    p.vectorNorm,
    p.dimensions.toFloat,
    p.complexity.toFloat,
    p.cacheHitRate,
    p.latencyHigh]

/-- The columns of a profile's categories. A category whose column would have the name of a numeric
feature gets none. -/
def categories (p : FilterProfile) : List String :=
  [propertyColumn p.property, operatorColumn p.operator].filter
    fun name => !selectivityFeatures.contains name

/-- The features of a profile for selectivities. -/
def vector (p : FilterProfile) : FeatureVector :=
  .ofList (selectivityFeatures.zip p.values ++ p.categories.map fun name => (name, 1.0))

end FilterProfile

/-- The features of a query for a target. A query without a filter profile has those of an empty
profile. -/
def Query.vector (q : Query) (t : Target) (known : Option Correlations) : FeatureVector :=
  match t with
  | .cardinality => q.cardinalityVector known
  | .selectivity => (q.profile.getD {}).vector

end QueryForecast
