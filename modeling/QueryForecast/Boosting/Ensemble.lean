import QueryForecast.Boosting.Builder
import QueryForecast.Error
import QueryForecast.Random.Sampling

/-!
# Ensembles

An ensemble predicts a base score plus one number from each of its trees. It is fitted in rounds:
each round grows a tree on what the ensemble so far leaves unexplained, over a sample of the rows
and of the columns, and adds it.
-/

namespace QueryForecast

open Numeric QueryForecast.Random

/-- A base score and trees that are added to it. -/
structure Ensemble where
  baseScore : Float
  /-- The number of columns. -/
  width : Nat
  trees : List RegressionTree
  /-- The total gain of the splits on each column. -/
  columnGain : List Float
  deriving DecidableEq, Repr

/-- Why an ensemble is not servable. -/
inductive EnsembleFault where
  | baseScore
  | columnGains (found width : Nat)
  | tree (index : Nat) (fault : TreeFault)
  deriving DecidableEq, Repr

/-- The text of an ensemble fault. -/
def EnsembleFault.message : EnsembleFault → String
  | .baseScore => "base score is not finite"
  | .columnGains found width =>
    "feature gain has " ++ toString found ++ " entries, model has " ++ toString width ++ " features"
  | .tree index fault => "tree " ++ toString index ++ ": " ++ fault.message

/-- Why a matrix cannot be fitted. -/
inductive MatrixFault where
  | settings (fault : SettingsFault)
  | empty
  | targetCount (rows targets : Nat)
  | rowWidth (row found expected : Nat)
  | notFinite (row : Nat)
  | targetNotFinite
  deriving DecidableEq, Repr

/-- The failure that a matrix fault leads to. -/
def MatrixFault.toFailure : MatrixFault → Failure
  | .settings fault => .invalidArgument fault.message
  | .empty => .insufficientData 0 1
  | .targetCount rows targets =>
    .invalidArgument (toString rows ++ " rows but " ++ toString targets ++ " targets")
  | .rowWidth row found expected =>
    .invalidArgument ("row " ++ toString row ++ " has " ++ toString found ++
      " features, expected " ++ toString expected)
  | .notFinite row =>
    .invalidArgument ("row " ++ toString row ++ " contains a non-finite feature value")
  | .targetNotFinite => .invalidArgument "targets must be finite"

namespace Ensemble

/-- The score of a row: the base score plus the sum over the trees. -/
def predict (e : Ensemble) (row : Row) : Float :=
  e.baseScore + sum (e.trees.map (·.predict row))

/-- The share of each column in the total gain; all zero when nothing was gained. -/
def importances (e : Ensemble) : List Float :=
  let total := sum e.columnGain
  if total ≤ 0.0 then List.replicate e.width 0.0 else e.columnGain.map (· / total)

/-- What is wrong with the first faulty tree of a list that starts at `index`. -/
def treesFault? (width : Nat) : Nat → List RegressionTree → Option EnsembleFault
  | _, [] => none
  | index, t :: rest =>
    match t.fault? width with
    | some fault => some (.tree index fault)
    | none => treesFault? width (index + 1) rest

/-- What is wrong with an ensemble, if anything. -/
def fault? (e : Ensemble) : Option EnsembleFault :=
  if ¬ e.baseScore.isFinite then some .baseScore
  else if e.columnGain.length ≠ e.width then some (.columnGains e.columnGain.length e.width)
  else treesFault? e.width 0 e.trees

/-- What is wrong with the first faulty row of a list that starts at `index`. -/
def rowsFault? (width : Nat) : Nat → List Row → Option MatrixFault
  | _, [] => none
  | index, row :: rest =>
    if row.size ≠ width then some (.rowWidth index row.size width)
    else if row.all Float.isFinite then rowsFault? width (index + 1) rest
    else some (.notFinite index)

/-- What is wrong with the input of a fit, if anything. -/
def matrixFault? (settings : Settings) (rows : List Row) (targets : List Float) :
    Option MatrixFault :=
  match settings.fault? with
  | some fault => some (.settings fault)
  | none =>
    match rows with
    | [] => some .empty
    | first :: _ =>
      if rows.length ≠ targets.length then some (.targetCount rows.length targets.length)
      else
        match rowsFault? first.size 0 rows with
        | some fault => some fault
        | none => if targets.all Float.isFinite then none else some .targetNotFinite

/-- The state between rounds: what has been fitted, what it predicts for each row, and the
generator. -/
structure Progress where
  trees : List RegressionTree
  columnGain : List Float
  predictions : List Float
  generator : Generator

/-- The samples of a round: the residuals of the given rows. -/
def residualSamples (rows : List Row) (targets predictions : List Float) : List Sample :=
  (rows.zip (targets.zip predictions)).map fun (row, target, prediction) =>
    ⟨row, target - prediction⟩

/-- Adds the gain of each split to its column. -/
def addGains (columnGain : List Float) (splits : List Candidate) : List Float :=
  splits.foldl (fun gains c => gains.modify c.column (· + c.gain)) columnGain

/-- The elements of a list at the given positions. -/
def pick {α : Type} (xs : List α) (positions : List Nat) : List α :=
  let array := xs.toArray
  positions.filterMap (array[·]?)

/-- One round: samples rows and columns, grows a tree and adds it. -/
def round (settings : Settings) (width : Nat) (rows : List Row) (targets : List Float)
    (p : Progress) : Progress :=
  let (positions, generator) := samplePortion rows.length settings.rowFraction p.generator
  let (columns, generator) := samplePortion width settings.columnFraction generator
  let samples := pick (residualSamples rows targets p.predictions) positions
  let (_, builder) := Builder.grow settings columns settings.maxDepth samples .empty
  let tree := builder.toTree
  { trees := p.trees ++ [tree]
    columnGain := addGains p.columnGain builder.splits.toList
    predictions := List.zipWith (fun prediction row => prediction + tree.predict row)
      p.predictions rows
    generator := generator }

/-- The state after a number of rounds. -/
def rounds (settings : Settings) (width : Nat) (rows : List Row) (targets : List Float) :
    Nat → Progress → Progress
  | 0, p => p
  | n + 1, p => rounds settings width rows targets n (round settings width rows targets p)

/-- The mean of the targets. -/
def mean (targets : List Float) : Float :=
  sum targets / ofNat targets.length

/-- The state before the first round: every row is predicted by the mean. -/
def start (settings : Settings) (width : Nat) (targets : List Float) : Progress where
  trees := []
  columnGain := List.replicate width 0.0
  predictions := targets.map fun _ => mean targets
  generator := Generator.ofSeed settings.seed

/-- Fits an ensemble to a matrix without faults. -/
def fitMatrix (settings : Settings) (rows : List Row) (targets : List Float) : Ensemble :=
  let width := (rows.head?.map Array.size).getD 0
  let p := rounds settings width rows targets settings.rounds (start settings width targets)
  { baseScore := mean targets
    width := width
    trees := p.trees
    columnGain := p.columnGain }

/-- Fits an ensemble to rows of equal width and their targets. -/
def fit (settings : Settings) (rows : List Row) (targets : List Float) :
    Except MatrixFault Ensemble :=
  match matrixFault? settings rows targets with
  | some fault => .error fault
  | none => .ok (fitMatrix settings rows targets)

/-- An ensemble as JSON. -/
def toJson (e : Ensemble) : Json :=
  .obj [
    ("base_score", .ofFloat e.baseScore),
    ("num_features", .ofNat e.width),
    ("trees", .arr (e.trees.map RegressionTree.toJson)),
    ("feature_gain", .arr (e.columnGain.map .ofFloat))]

/-- The fields of an encoded ensemble. -/
def form : Json.RecordForm where
  fields := ["base_score", "num_features", "trees", "feature_gain"]
  required := ["base_score", "num_features", "trees", "feature_gain"]
  leading := 4

/-- How an ensemble is read from text. -/
def outline : Json.Outline :=
  .ofFields form.fields [("trees", .list RegressionTree.outline)]

/-- Reads one field. -/
def set (name : String) (v : Json) (e : Ensemble) : Json.Decoded Ensemble :=
  match name with
  | "base_score" => do return { e with baseScore := ← v.asFloat }
  | "num_features" => do return { e with width := ← v.asNat }
  | "trees" => do return { e with trees := ← v.asList RegressionTree.ofJson }
  | "feature_gain" => do return { e with columnGain := ← v.asList Json.asFloat }
  | _ => .ok e

/-- The ensemble that a JSON value encodes. -/
def ofJson (v : Json) : Json.Decoded Ensemble :=
  v.asRecord form set ⟨0.0, 0, [], []⟩

end Ensemble

end QueryForecast
