import QueryForecast.Json.Decoding

/-!
# Filters

A filter compares a column with a value. The estimator looks at the column's name and at the
operator; the value is carried along as it is.
-/

namespace QueryForecast

/-- The operator of a filter that names none. -/
def defaultOperator : String := "="

/-- A condition of a query. -/
structure Filter where
  column : String
  operator : String
  value : Json
  deriving Repr, Inhabited

namespace Filter

/-- A filter as JSON. -/
def toJson (f : Filter) : Json :=
  .obj [("column", .str f.column), ("operator", .str f.operator), ("value", f.value)]

/-- The fields of an encoded filter. -/
def form : Json.RecordForm where
  fields := ["column", "operator", "value"]

/-- Reads one field. -/
def set (name : String) (v : Json) (f : Filter) : Json.Decoded Filter :=
  match name with
  | "column" => do return { f with column := ← v.asString }
  | "operator" => do return { f with operator := ← v.asCategory defaultOperator }
  | "value" => .ok { f with value := v }
  | _ => .ok f

/-- The filter that a JSON value encodes. -/
def ofJson (v : Json) : Json.Decoded Filter :=
  v.asRecord form set ⟨"", defaultOperator, .null⟩

end Filter

end QueryForecast
