import QueryForecast.Query.Basic
import QueryForecast.Target

/-!
# Closed-form estimates

Estimates that need no model. They are features of the learned model, and what is served when no
model is active. Planners are calibrated against these numbers.
-/

namespace QueryForecast.Heuristic

open Numeric

/-- The fraction of rows that a condition with the given operator is taken to pass. An operator that
is not known is taken to pass all. -/
def operatorSelectivity (operator : String) : Float :=
  if operator = "=" then 0.1
  else if operator = "<" ∨ operator = ">" ∨ operator = "<=" ∨ operator = ">=" then 0.5
  else if operator = "LIKE" then 0.3
  else 1.0

/-- The fraction of rows that pass all filters, as if they were independent, but at least
`minSelectivity`. -/
def filterSelectivity (filters : List Filter) : Float :=
  atLeast minSelectivity (product (filters.map fun f => operatorSelectivity f.operator))

/-- A weighted count of the parts of a query. -/
def complexity (q : Query) : Float :=
  1.0 * ofNat q.filters.length + 2.0 * ofNat q.joins.length + 1.5 * ofNat q.aggregations.length
    + 0.5 * ofNat q.sortKeys.length

/-- The row count of a table without statistics. -/
def defaultRowCount : UInt64 := 1000

/-- `2^-n`. -/
def halved : Nat → Float
  | 0 => 1.0
  | n + 1 => halved n * 0.5

/-- The greatest exponent of a power: an exponent has 31 bits. -/
def maxExponent : Nat := 0x7fffffff

/-- The estimated row count of a query: every filter halves the row count of the table. The result
is rounded down, and at least one. -/
def cardinality (q : Query) : UInt64 :=
  max ((q.rowCount?.getD defaultRowCount).toFloat
    * halved (min q.filters.length maxExponent)).toUInt64 1

/-- The selectivity of a filter of which nothing is known. -/
def defaultSelectivity : Float := 0.5

/-- The estimated selectivity of a filter: what past filters on the property passed, else the share
of its distinct values in the corpus, else a constant; within `[minSelectivity, 1]`. -/
def selectivity (p : FilterProfile) : Float :=
  clamp minSelectivity 1.0 <|
    if p.pastMedian != 0.0 then p.pastMedian
    else if 0 < p.propertyCardinality ∧ 0 < p.corpusSize then
      p.propertyCardinality.toFloat / p.corpusSize.toFloat
    else defaultSelectivity

end QueryForecast.Heuristic
