import QueryForecast.Boosting.Ensemble
import QueryForecast.Feature.Extraction
import QueryForecast.Feature.Schema
import QueryForecast.Log.Record
import QueryForecast.Random.Sampling

/-!
# Datasets

Records become rows of feature values, aligned to one schema, and the outcomes that were observed stand
in a second list beside them. `Dataset.divide` holds out a part of the rows, chosen by a seed, so that
a fit can be judged on rows that it has not seen; `length_pick_congr` keeps the two lists of a part
beside each other.
-/

namespace QueryForecast

open Numeric QueryForecast.Random

/-- Rows that are aligned to one schema, and the outcome observed for each of them, at the same
position. -/
@[ext] structure Dataset where
  schema : Schema
  rows : List Row
  outcomes : List Float
  aligned : rows.length = outcomes.length

/-- The same positions pick as many elements from lists of the same length. -/
theorem Ensemble.length_pick_congr {α β : Type} {xs : List α} {ys : List β}
    (h : xs.length = ys.length) (positions : List Nat) :
    (pick xs positions).length = (pick ys positions).length := by
  unfold pick
  dsimp only
  induction positions with
  | nil => rfl
  | cons i rest ih =>
    by_cases hi : i < xs.length
    · have hi' : i < ys.length := h ▸ hi
      rw [List.filterMap_cons_some (by rw [List.getElem?_toArray, List.getElem?_eq_getElem hi]),
        List.filterMap_cons_some (by rw [List.getElem?_toArray, List.getElem?_eq_getElem hi']),
        List.length_cons, List.length_cons, ih]
    · rw [List.filterMap_cons_none (by rw [List.getElem?_toArray, List.getElem?_eq_none (by omega)]),
        List.filterMap_cons_none (by rw [List.getElem?_toArray, List.getElem?_eq_none (by omega)]), ih]

namespace Dataset

/-- The number of rows. -/
def size (d : Dataset) : Nat :=
  d.rows.length

/-- The dataset of records with their outcomes. Its columns are the base features of the target and
after them all others, in order of first appearance. -/
def ofRecords (t : Target) (records : List (ExecutionRecord × Float)) :
    Except SchemaFault Dataset := do
  let vectors := records.map fun (record, _) => record.query.vector t none
  let schema ← Schema.ofVectors t.baseFeatures vectors
  return {
    schema := schema
    rows := vectors.map fun v => (schema.align v).toArray
    outcomes := records.map fun (_, outcome) => outcome
    aligned := by simp [vectors] }

/-- The rows and the outcomes at the given positions. -/
def pick (d : Dataset) (positions : List Nat) : Dataset where
  schema := d.schema
  rows := Ensemble.pick d.rows positions
  outcomes := Ensemble.pick d.outcomes positions
  aligned := Ensemble.length_pick_congr d.aligned positions

/-- How many of `n` rows are held out: a fraction, rounded up, that leaves something on both sides. One
row cannot be divided. -/
def heldOutCount (n : Nat) (fraction : Float) : Nat :=
  if n ≤ 1 then 0 else portion n fraction 1 (n - 1)

/-- The positions of `n` rows in random order, those to train on first and those held out
second. -/
def division (n : Nat) (fraction : Float) (seed : UInt64) : List Nat × List Nat :=
  let order := (shuffled n (.ofSeed seed)).1
  let count := heldOutCount n fraction
  (order.drop count, order.take count)

/-- Divides a dataset into the part to train on and the part that is held out. -/
def divide (d : Dataset) (fraction : Float) (seed : UInt64) : Dataset × Dataset :=
  let (training, heldOut) := division d.size fraction seed
  (d.pick training, d.pick heldOut)

end Dataset

end QueryForecast
