import QueryForecast.Boosting.Settings
import QueryForecast.Boosting.Tree
import QueryForecast.Numeric.Order

/-!
# Split search

The best way to divide the rows of a node by a threshold on one column. In every column the rows are
sorted by their value, and each place between two different values is a possible split. Its gain is
how much the squared sums of residuals, weighted by the number of rows, grow by dividing.

Within a column the first split of the greatest gain is taken, and of the columns the lowest.
-/

namespace QueryForecast

open Numeric

/-- A row that a tree is grown on, with what the ensemble so far leaves to be explained. -/
structure Sample where
  row : Row
  residual : Float
  deriving DecidableEq, Repr

/-- Where a node may be divided, and what that gains. -/
structure Candidate where
  column : Nat
  threshold : Float
  gain : Float
  deriving DecidableEq, Repr

namespace Candidate

/-- The better of two candidates: the greater gain, and at equal gains the lower column. -/
def better (x y : Candidate) : Candidate :=
  if x.gain < y.gain ∨ (y.gain == x.gain ∧ y.column < x.column) then y else x

/-- The best of some candidates. -/
def best? : List Candidate → Option Candidate
  | [] => none
  | x :: rest => some (rest.foldl better x)

end Candidate

namespace Split

/-- Splits that gain no more than this are not taken. -/
def minGain : Float := 1e-12

/-- The value of a column and the residual of each sample, sorted by the value. Samples of equal
value keep their order. -/
def points (column : Nat) (samples : List Sample) : List (Float × Float) :=
  (samples.map fun s => (s.row.at column, s.residual)).mergeSort fun p q => precedes p.1 q.1

/-- What the residual sum of some rows counts for in the gain. -/
def score (lambda : Float) (residuals : Float) (rows : Nat) : Float :=
  residuals * residuals / (ofNat rows + lambda)

/-- A threshold that divides two values: the point halfway between them, or the upper one when the
halfway point rounds to the lower. -/
def thresholdBetween (lower upper : Float) : Float :=
  let middle := lower + (upper - lower) / 2.0
  if lower < middle then middle else upper

/-- What stays the same while the points of a column are scanned. -/
structure Scan where
  settings : Settings
  column : Nat
  /-- The number of rows of the node. -/
  rows : Nat
  /-- The sum of the residuals of the node. -/
  total : Float

namespace Scan

/-- The gain of dividing after the first `below` rows, whose residual sum is `sum`. -/
def gain (s : Scan) (sum : Float) (below : Nat) : Float :=
  score s.settings.lambda sum below
    + score s.settings.lambda (s.total - sum) (s.rows - below)
    - score s.settings.lambda s.total s.rows

/-- Whether a gain replaces the best one so far. -/
def improves (best : Option Candidate) (gain : Float) : Bool :=
  if gain ≤ minGain then false
  else
    match best with
    | some c => !decide (gain ≤ c.gain)
    | none => true

/-- The best candidate after the place between two neighbouring values, with `below` rows and their
residual sum before it. -/
def consider (s : Scan) (best : Option Candidate) (sum : Float) (below : Nat)
    (lower upper : Float) : Option Candidate :=
  if lower == upper then best
  else if below < s.settings.minLeafRows ∨ s.rows - below < s.settings.minLeafRows then best
  else
    let gain := s.gain sum below
    if improves best gain then some ⟨s.column, thresholdBetween lower upper, gain⟩ else best

/-- Scans the points from the one after `below` others, whose residual sum is `sum`. -/
def run (s : Scan) (best : Option Candidate) (sum : Float) (below : Nat) :
    List (Float × Float) → Option Candidate
  | p :: q :: rest =>
    let sum := sum + p.2
    s.run (s.consider best sum (below + 1) p.1 q.1) sum (below + 1) (q :: rest)
  | _ => best

end Scan

/-- The best split of a node on one column, if any is worth taking. -/
def onColumn? (settings : Settings) (samples : List Sample) (total : Float) (column : Nat) :
    Option Candidate :=
  Scan.run ⟨settings, column, samples.length, total⟩ none 0.0 0 (points column samples)

/-- The best split of a node on any of the columns, if any is worth taking. -/
def find? (settings : Settings) (columns : List Nat) (samples : List Sample) (total : Float) :
    Option Candidate :=
  Candidate.best? (columns.filterMap (onColumn? settings samples total))

end Split

end QueryForecast
