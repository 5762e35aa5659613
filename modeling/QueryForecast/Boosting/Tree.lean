import QueryForecast.Json.Decoding
import QueryForecast.Json.Outline

/-!
# Regression trees

A tree is a list of nodes, the root first. A split sends a row to one of two later nodes by
comparing one of its columns with a threshold; a leaf holds a number. `predict` follows a row from
the root to a leaf, and `fault?` says whether a list of nodes is a well-formed tree.
-/

namespace QueryForecast

/-- A row of a feature matrix. -/
abbrev Row := Array Float

/-- The value in a column; zero past the end of the row. -/
def Row.at (row : Row) (column : Nat) : Float :=
  row.getD column 0.0

/-- A node of a tree. -/
inductive Node where
  /-- A row goes to `below` when its value in the column is less than the threshold, and to `above`
  otherwise. -/
  | split (column : Nat) (threshold : Float) (below above : Nat)
  | leaf (value : Float)
  deriving DecidableEq, Repr

/-- Why a list of nodes is not a well-formed tree. -/
inductive TreeFault where
  | empty
  | unknownColumn (node column width : Nat)
  | undefinedThreshold (node : Nat)
  | invalidChild (node child : Nat)
  | leafNotFinite (node : Nat)
  deriving DecidableEq, Repr

/-- The text of a tree fault. -/
def TreeFault.message : TreeFault → String
  | .empty => "tree has no nodes"
  | .unknownColumn node column width =>
    "node " ++ toString node ++ " splits on feature " ++ toString column ++ ", model has " ++
      toString width
  | .undefinedThreshold node => "node " ++ toString node ++ " has a NaN threshold"
  | .invalidChild node child =>
    "node " ++ toString node ++ " references invalid child " ++ toString child
  | .leafNotFinite node => "leaf " ++ toString node ++ " has non-finite value"

/-- A regression tree. -/
structure RegressionTree where
  nodes : Array Node
  deriving DecidableEq, Repr

namespace RegressionTree

/-- The number at the leaf that a row reaches from a node in at most `fuel` steps; zero when it
leaves the list of nodes. -/
def walk (t : RegressionTree) (row : Row) : Nat → Nat → Float
  | 0, _ => 0.0
  | fuel + 1, index =>
    match t.nodes[index]? with
    | some (.split column threshold below above) =>
      t.walk row fuel (if row.at column < threshold then below else above)
    | some (.leaf value) => value
    | none => 0.0

/-- The number at the leaf that a row reaches from the root. A row that does not go in circles
visits each node at most once, so the number of nodes bounds its steps. -/
def predict (t : RegressionTree) (row : Row) : Float :=
  t.walk row (t.nodes.size + 1) 0

/-- What is wrong with a node of a tree of `size` nodes for rows of `width` columns. The children of
a node come after it. -/
def nodeFault? (size width index : Nat) : Node → Option TreeFault
  | .split column threshold below above =>
    if width ≤ column then some (.unknownColumn index column width)
    else if threshold.isNaN then some (.undefinedThreshold index)
    else if below ≤ index ∨ size ≤ below then some (.invalidChild index below)
    else if above ≤ index ∨ size ≤ above then some (.invalidChild index above)
    else none
  | .leaf value => if value.isFinite then none else some (.leafNotFinite index)

/-- What is wrong with the first faulty node of a list that starts at `index`. -/
def nodesFault? (size width : Nat) : Nat → List Node → Option TreeFault
  | _, [] => none
  | index, node :: rest =>
    match nodeFault? size width index node with
    | some fault => some fault
    | none => nodesFault? size width (index + 1) rest

/-- What is wrong with a tree for rows of `width` columns, if anything. -/
def fault? (t : RegressionTree) (width : Nat) : Option TreeFault :=
  if t.nodes.isEmpty then some .empty else nodesFault? t.nodes.size width 0 t.nodes.toList

end RegressionTree

namespace Node

/-- A node as JSON. -/
def toJson : Node → Json
  | .split column threshold below above =>
    .obj [("type", .str "split"), ("feature", .ofNat column), ("threshold", .ofFloat threshold),
      ("left", .ofNat below), ("right", .ofNat above)]
  | .leaf value => .obj [("type", .str "leaf"), ("value", .ofFloat value)]

/-- The parts of an encoded node. -/
structure Parts where
  column : Nat := 0
  threshold : Float := 0.0
  below : Nat := 0
  above : Nat := 0
  value : Float := 0.0

/-- Reads one part. -/
def Parts.set (name : String) (v : Json) (p : Parts) : Json.Decoded Parts :=
  match name with
  | "feature" => do return { p with column := ← v.asNat }
  | "threshold" => do return { p with threshold := ← v.asFloat }
  | "left" => do return { p with below := ← v.asNat }
  | "right" => do return { p with above := ← v.asNat }
  | "value" => do return { p with value := ← v.asFloat }
  | _ => .ok p

/-- The fields of an encoded split. -/
def splitForm : Json.RecordForm where
  fields := ["feature", "threshold", "left", "right"]
  required := ["feature", "threshold", "left", "right"]
  leading := 4

/-- The fields of an encoded leaf. -/
def leafForm : Json.RecordForm where
  fields := ["value"]
  required := ["value"]
  leading := 1

/-- The node of the given kind that a JSON value encodes. -/
def ofKind (kind : String) (v : Json) : Json.Decoded Node :=
  match kind with
  | "split" => do
    let p ← v.asRecord splitForm Parts.set {}
    return .split p.column p.threshold p.below p.above
  | "leaf" => do
    let p ← v.asRecord leafForm Parts.set {}
    return .leaf p.value
  | _ => .error .shape

/-- The node that a JSON value encodes: an object whose `type` says which kind of node it is, or an
array with the kind in front. -/
def ofJson : Json → Json.Decoded Node
  | .obj entries =>
    match entries.filter fun entry => entry.1 == "type" with
    | [(_, .str kind)] => ofKind kind (.obj entries)
    | _ => .error .shape
  | .arr (.str kind :: items) => ofKind kind (.arr items)
  | _ => .error .shape

end Node

namespace RegressionTree

/-- A tree as JSON. -/
def toJson (t : RegressionTree) : Json :=
  .obj [("nodes", .arr (t.nodes.toList.map Node.toJson))]

/-- The fields of an encoded tree. -/
def form : Json.RecordForm where
  fields := ["nodes"]
  required := ["nodes"]
  leading := 1

/-- How a tree is read from text. Its nodes are read strictly, for the kind of a node may come after
its other entries. -/
def outline : Json.Outline :=
  .ofFields form.fields

/-- Reads one field. -/
def set (name : String) (v : Json) (t : RegressionTree) : Json.Decoded RegressionTree :=
  match name with
  | "nodes" => do return ⟨(← v.asList Node.ofJson).toArray⟩
  | _ => .ok t

/-- The tree that a JSON value encodes. -/
def ofJson (v : Json) : Json.Decoded RegressionTree :=
  v.asRecord form set ⟨#[]⟩

end RegressionTree

end QueryForecast
