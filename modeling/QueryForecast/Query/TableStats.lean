import QueryForecast.Json.Decoding

/-!
# Table statistics

What is known about the scanned table when a query runs.
-/

namespace QueryForecast

/-- Statistics of the scanned table. -/
structure TableStats where
  rowCount : UInt64 := 0
  distinctCount : UInt64 := 0
  indexedColumns : List String := []
  deriving DecidableEq, Repr, Inhabited

namespace TableStats

/-- The statistics with one more indexed column. -/
def addIndex (s : TableStats) (column : String) : TableStats :=
  { s with indexedColumns := s.indexedColumns ++ [column] }

/-- Statistics as JSON; the list of indexed columns is left out when it is empty. -/
def toJson (s : TableStats) : Json :=
  .obj ([("row_count", .ofNat s.rowCount.toNat), ("distinct_count", .ofNat s.distinctCount.toNat)]
    ++ (if s.indexedColumns.isEmpty then []
        else [("indexed_columns", .arr (s.indexedColumns.map .str))]))

/-- The fields of encoded statistics. -/
def form : Json.RecordForm where
  fields := ["row_count", "distinct_count", "indexed_columns"]

/-- Reads one field. -/
def set (name : String) (v : Json) (s : TableStats) : Json.Decoded TableStats :=
  match name with
  | "row_count" => do return { s with rowCount := ← v.asCount64 }
  | "distinct_count" => do return { s with distinctCount := ← v.asCount64 }
  | "indexed_columns" => do return { s with indexedColumns := ← v.asList Json.asString }
  | _ => .ok s

/-- The statistics that a JSON value encodes. -/
def ofJson (v : Json) : Json.Decoded TableStats :=
  v.asRecord form set {}

end TableStats

end QueryForecast
