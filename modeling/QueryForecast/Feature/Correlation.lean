import QueryForecast.Numeric.Basic

/-!
# Column correlations

Correlation coefficients of pairs of columns. The order in which the columns of a pair are given
does not matter, and the last coefficient given for a pair counts.
-/

namespace QueryForecast

/-- A pair of columns in a fixed order. -/
abbrev ColumnPair := String × String

/-- The two columns in ascending order. -/
def columnPair (a b : String) : ColumnPair :=
  if a ≤ b then (a, b) else (b, a)

/-- Coefficients of pairs of columns; no pair occurs twice. -/
structure Correlations where
  entries : List (ColumnPair × Float) := []
  deriving DecidableEq, Repr, Inhabited

namespace Correlations

/-- Sets the coefficient of a pair in a list of entries. -/
def put (pair : ColumnPair) (x : Float) : List (ColumnPair × Float) → List (ColumnPair × Float)
  | [] => [(pair, x)]
  | (pair', y) :: rest =>
    if pair' = pair then (pair', x) :: rest else (pair', y) :: put pair x rest

/-- Sets the coefficient of two columns. -/
def insert (c : Correlations) (a b : String) (x : Float) : Correlations :=
  ⟨put (columnPair a b) x c.entries⟩

/-- The coefficients that result from setting them one after the other. -/
def ofList (pairs : List (String × String × Float)) : Correlations :=
  pairs.foldl (fun c (a, b, x) => c.insert a b x) {}

/-- The coefficient of two columns. -/
def get? (c : Correlations) (a b : String) : Option Float :=
  c.entries.lookup (columnPair a b)

/-- The number of pairs with a coefficient. -/
def size (c : Correlations) : Nat := c.entries.length

/-- The strength of a pair of columns: the size of its coefficient, if it has a finite one. A column
says nothing about itself. -/
def strength? (c : Correlations) (a b : String) : Option Float :=
  if a = b then none
  else ((c.get? a b).filter Float.isFinite).map Float.abs

/-- All pairs of an element and a later one. -/
def pairs {α : Type} : List α → List (α × α)
  | [] => []
  | a :: rest => rest.map (fun b => (a, b)) ++ pairs rest

/-- The greatest strength among the pairs of some columns; zero when no pair has one. -/
def strongest (c : Correlations) (columns : List String) : Float :=
  ((pairs columns).filterMap fun (a, b) => c.strength? a b).foldl Numeric.atLeast 0.0

/-- Makes coefficients known, unless some are known already; the first part says whether they were
taken. -/
def learn (known : Option Correlations) (c : Correlations) : Bool × Option Correlations :=
  match known with
  | some _ => (false, known)
  | none => (true, some c)

end Correlations

end QueryForecast
