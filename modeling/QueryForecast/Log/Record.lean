import QueryForecast.Query.Basic
import QueryForecast.Query.Strategy
import QueryForecast.Target

/-!
# Execution records

A query that was run, with what was observed. An encoded record is one object: the entries of its
query and those of the observations side by side.
-/

namespace QueryForecast

/-- A query that was run, with its observed outcomes. -/
structure ExecutionRecord where
  query : Query := {}
  /-- The number of rows that were returned. -/
  cardinality : Option Float := none
  /-- The fraction of the corpus that passed the filter. -/
  selectivity : Option Float := none
  /-- How long the query took, in milliseconds. -/
  executionTime : Option Float := none
  /-- The filter strategy that would have been the better one. -/
  bestStrategy : Option Strategy := none
  deriving Repr, Inhabited

namespace ExecutionRecord

/-- The record of a query that returned the given number of rows. -/
def ofCardinality (q : Query) (rows : Float) : ExecutionRecord :=
  { query := q, cardinality := some rows }

/-- The record of a filter that let the given fraction pass. -/
def ofSelectivity (p : FilterProfile) (fraction : Float) : ExecutionRecord :=
  { query := .ofProfile p, selectivity := some fraction }

/-- The observation for a target, valid or not. -/
def observed? (r : ExecutionRecord) : Target → Option Float
  | .cardinality => r.cardinality
  | .selectivity => r.selectivity

/-- The valid outcome for a target, or what is wrong with it. -/
def outcome (r : ExecutionRecord) (t : Target) : Except OutcomeFault Float :=
  match r.observed? t with
  | none => .error .missing
  | some y =>
    match t.outcomeFault? y with
    | some fault => .error fault
    | none => .ok y

/-- The valid outcome for a target, if there is one. -/
def outcome? (r : ExecutionRecord) (t : Target) : Option Float :=
  (r.observed? t).filter t.accepts

/-- A record as JSON. -/
def toJson (r : ExecutionRecord) : Json :=
  .obj (r.query.toEntries
    ++ Json.optionalEntry "actual_cardinality" Json.ofFloat r.cardinality
    ++ Json.optionalEntry "actual_selectivity" Json.ofFloat r.selectivity
    ++ Json.optionalEntry "execution_time_ms" Json.ofFloat r.executionTime
    ++ Json.optionalEntry "optimal_strategy" Strategy.toJson r.bestStrategy)

/-- The fields of the observations in an encoded record. -/
def form : Json.RecordForm where
  fields := ["actual_cardinality", "actual_selectivity", "execution_time_ms", "optimal_strategy"]

/-- Reads one field of the observations. -/
def set (name : String) (v : Json) (r : ExecutionRecord) : Json.Decoded ExecutionRecord :=
  match name with
  | "actual_cardinality" => do return { r with cardinality := ← v.asOption Json.asFloat }
  | "actual_selectivity" => do return { r with selectivity := ← v.asOption Json.asFloat }
  | "execution_time_ms" => do return { r with executionTime := ← v.asOption Json.asFloat }
  | "optimal_strategy" => do return { r with bestStrategy := ← v.asOption Strategy.ofJson }
  | _ => .ok r

/-- The record that a JSON value encodes. Its observations are read before its query. -/
def ofJson (v : Json) : Json.Decoded ExecutionRecord :=
  match v with
  | .obj entries => do
    let observations ← Json.readEntries form set [] {} entries
    let query ← Json.readEntries Query.form Query.set [] {} entries
    return { observations with query := query }
  | _ => .error .shape

end ExecutionRecord

end QueryForecast
