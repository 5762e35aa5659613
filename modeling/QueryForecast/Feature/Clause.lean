import QueryForecast.Numeric.Single
import QueryForecast.Query.FilterProfile
import QueryForecast.Time.Timestamp

/-!
# Filter clauses

The filter of a vector search as the execution engine sees it, and the profile that is made of it
before the search runs.
-/

namespace QueryForecast

open Numeric Time

/-- A filter built from comparisons. -/
inductive Clause where
  | leaf (property operator : String)
  | all (clauses : List Clause)
  | any (clauses : List Clause)
  | not (clause : Clause)
  deriving Inhabited

namespace Clause

mutual

/-- The number of clauses in a filter; every node counts once. -/
def complexity : Clause → Nat
  | .leaf _ _ => 1
  | .all clauses => 1 + totalComplexity clauses
  | .any clauses => 1 + totalComplexity clauses
  | .not clause => 1 + clause.complexity

/-- The number of clauses in several filters. -/
def totalComplexity : List Clause → Nat
  | [] => 0
  | clause :: rest => clause.complexity + totalComplexity rest

end

/-- The property that a comparison looks at; other clauses have none. -/
def property : Clause → String
  | .leaf property _ => property
  | _ => ""

/-- The operator of the top clause. -/
def operator : Clause → String
  | .leaf _ operator => operator
  | .all _ => "And"
  | .any _ => "Or"
  | .not _ => "Not"

end Clause

/-- The length of a vector of single-precision components. -/
def euclideanNorm (vector : List Float) : Float :=
  (sum (vector.map fun x => x * x)).sqrt

namespace FilterProfile

/-- The profile of a filter that is issued now; nothing is known of past filters. -/
def ofClause (clause : Option Clause) (vector : List Float) (corpusSize : UInt64)
    (now : Timestamp) : FilterProfile :=
  { property := (clause.map Clause.property).getD unknownCategory
    operator := (clause.map Clause.operator).getD unknownCategory
    complexity := UInt32.ofNat ((clause.map Clause.complexity).getD 1)
    corpusSize := corpusSize
    hour := UInt32.ofNat now.hour
    weekday := UInt32.ofNat (weekdayFromSunday now.day)
    vectorNorm := euclideanNorm vector
    dimensions := UInt32.ofNat (min vector.length 0xffffffff) }

end FilterProfile

end QueryForecast
