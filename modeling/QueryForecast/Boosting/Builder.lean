import QueryForecast.Boosting.Split

/-!
# Growing trees

A tree is grown from the samples of its node: it is a leaf when it is deep enough, has too few rows
or no split worth taking, and otherwise divides its samples and grows both halves.

`Builder` holds the list of nodes while it is written. Every node is appended as a leaf, before the
nodes below and above it; a split then overwrites it.
-/

namespace QueryForecast

open Numeric

/-- The number at a leaf over rows with the given residual sum. -/
def leafValue (settings : Settings) (total : Float) (rows : Nat) : Float :=
  settings.learningRate * total / (ofNat rows + settings.lambda)

/-- A tree that is being written. -/
structure Builder where
  /-- The nodes so far. -/
  nodes : Array Node
  /-- The splits so far, in the order in which they were taken. -/
  splits : Array Candidate
  deriving Repr

namespace Builder

/-- Nothing is written yet. -/
def empty : Builder :=
  ⟨#[], #[]⟩

/-- Appends a node. -/
def push (b : Builder) (node : Node) : Builder :=
  { b with nodes := b.nodes.push node }

/-- Notes that a split was taken. -/
def note (b : Builder) (c : Candidate) : Builder :=
  { b with splits := b.splits.push c }

/-- Overwrites the node with the given index. -/
def overwrite (b : Builder) (index : Nat) (node : Node) : Builder :=
  { b with nodes := b.nodes.setIfInBounds index node }

/-- Appends a tree of at most the given depth. The result begins with the index of its root. -/
def grow (settings : Settings) (columns : List Nat) :
    Nat → List Sample → Builder → Nat × Builder
  | 0, samples, b =>
    (b.nodes.size,
      b.push (.leaf (leafValue settings (sum (samples.map (·.residual))) samples.length)))
  | depth + 1, samples, b =>
    let index := b.nodes.size
    let total := sum (samples.map (·.residual))
    let b := b.push (.leaf (leafValue settings total samples.length))
    if samples.length < 2 * settings.minLeafRows then (index, b)
    else
      match Split.find? settings columns samples total with
      | none => (index, b)
      | some c =>
        let (lower, upper) := samples.partition fun s => decide (s.row.at c.column < c.threshold)
        let (below, b) := grow settings columns depth lower (b.note c)
        let (above, b) := grow settings columns depth upper b
        (index, b.overwrite index (.split c.column c.threshold below above))

/-- The tree that is written. -/
def toTree (b : Builder) : RegressionTree :=
  ⟨b.nodes⟩

end Builder

end QueryForecast
