import QueryForecast.Feature.Clause
import QueryForecast.Feature.Extraction
import QueryForecast.Feature.History
import QueryForecast.Log.Backlog
import QueryForecast.Model.Artifact
import QueryForecast.Serving.Estimate
import QueryForecast.Serving.Settings

/-!
# The estimator

Serves estimates from the active model, and from closed forms when no model for the target is active
or the model does not answer, so an estimate never fails. What is observed while serving goes into
the history of properties and into the backlog for the next training run; it never changes a model.
-/

namespace QueryForecast

open Numeric Time

/-- The confidence of an estimate that no model with known errors made. -/
def fallbackConfidence : Float := 0.5

/-- A model slot, and what was observed while serving. -/
structure Estimator where
  settings : EstimatorSettings
  active : Option Model := none
  /-- The correlations of columns, once they are known. -/
  correlations : Option Correlations := none
  history : History := {}
  backlog : Backlog

namespace Estimator

/-- An estimator without a model. -/
def start (settings : EstimatorSettings) : Estimator where
  settings := settings
  backlog := .empty settings.backlogCapacity

/-- Makes a model active, unless it was not fitted; with it comes the model that it replaces. -/
def activate (e : Estimator) (m : Model) : Except Failure (Option Model × Estimator) :=
  if m.isTrained then .ok (e.active, { e with active := some m }) else .error .notTrained

/-- Takes the active model out. -/
def deactivate (e : Estimator) : Option Model × Estimator :=
  (e.active, { e with active := none })

/-- Makes the model of the artifact at a path active. -/
def loadModel (e : Estimator) (s : Storage) (path : String) : Except Failure Estimator := do
  let (_, e) ← e.activate (← Model.load s path)
  return e

/-- An estimator that serves a model. -/
def ofModel (settings : EstimatorSettings) (m : Model) : Except Failure Estimator := do
  let (_, e) ← (start settings).activate m
  return e

/-- An estimator that serves the model of the artifact at a path. -/
def ofArtifact (settings : EstimatorSettings) (s : Storage) (path : String) :
    Except Failure Estimator :=
  (start settings).loadModel s path

/-- Like `ofArtifact`, but without a model when there is none to load. -/
def ofArtifactIfAny (settings : EstimatorSettings) (s : Storage) (path : String) : Estimator :=
  match ofArtifact settings s path with
  | .ok e => e
  | .error _ => start settings

/-- The active model, if it is one for the given target. -/
def activeFor? (e : Estimator) (t : Target) : Option Model :=
  e.active.filter fun m => m.target == t

/-- Makes the correlations of columns known. They can be given once; later ones are not taken. -/
def learnCorrelations (e : Estimator) (c : Correlations) : Bool × Estimator :=
  let (taken, known) := Correlations.learn e.correlations c
  (taken, { e with correlations := known })

/-- A query with a timestamp: its own, or else the current time. -/
def stamped (q : Query) (now : Timestamp) : Query :=
  { q with timestamp := some (q.timestamp.getD now) }

/-- The features of a query that is to be estimated now. -/
def cardinalityVector (e : Estimator) (q : Query) (now : Timestamp) : FeatureVector :=
  (if e.settings.stampsMissingTime then stamped q now else q).vector .cardinality e.correlations

/-- What the active model estimates for a row count, if it is a model for row counts. -/
def modelCardinality? (e : Estimator) (q : Query) (now : Timestamp) : Option Float := do
  let m ← e.activeFor? .cardinality
  (m.estimate (e.cardinalityVector q now)).toOption

/-- The estimated row count of a query, at least one. -/
def estimateCardinality (e : Estimator) (q : Query) (now : Timestamp) : CardinalityEstimate :=
  match e.modelCardinality? q now with
  | some estimate => ⟨max estimate.toUInt64 1, .model⟩
  | none => ⟨Heuristic.cardinality q, .fallback⟩

/-- The profile of a filter that is about to run, with what is known of past filters on its
property. -/
def profile (e : Estimator) (clause : Option Clause) (vector : List Float) (corpusSize : UInt64)
    (now : Timestamp) : FilterProfile :=
  e.history.fill (.ofClause clause vector corpusSize now)

/-- The active model and what it estimates for a selectivity, if it is a model for selectivities. -/
def modelSelectivity? (e : Estimator) (p : FilterProfile) : Option (Model × Float) := do
  let m ← e.activeFor? .selectivity
  let estimate ← (m.estimate p.vector).toOption
  return (m, estimate)

/-- How much the estimates of a model are to be trusted. -/
def confidence (m : Model) : Float :=
  (m.quality.map Quality.confidence).getD fallbackConfidence

/-- The estimated selectivity of a filter. Historical fields of its profile that are zero are filled
from what was observed. -/
def estimateSelectivity (e : Estimator) (p : FilterProfile) : SelectivityEstimate :=
  let p := e.history.fill p
  let threshold := e.settings.preFilterThreshold
  match e.modelSelectivity? p with
  | some (m, estimate) => ⟨estimate, confidence m, .model, .forSelectivity threshold estimate⟩
  | none =>
    let estimate := Heuristic.selectivity p
    ⟨estimate, fallbackConfidence, .fallback, .forSelectivity threshold estimate⟩

/-- Whether to filter before the search; never when the choice of strategies is disabled. -/
def filtersFirst (e : Estimator) (p : FilterProfile) : Bool :=
  e.settings.enabled && (e.estimateSelectivity p).strategy == .preFilter

/-- The estimator after a query returned a number of rows. An outcome that is not valid is not
recorded. -/
def observeCardinality (e : Estimator) (q : Query) (rows : Float) (now : Timestamp) : Estimator :=
  if Target.cardinality.accepts rows then
    { e with backlog := e.backlog.push (.ofCardinality (stamped q now) rows) }
  else e

/-- The record of a filter that let a fraction pass, with the strategy that would have been the
better one. -/
def filterRecord (p : FilterProfile) (fraction : Float) (preLatency postLatency : Option Nat)
    (now : Timestamp) : ExecutionRecord :=
  { query := { profile := some p, timestamp := some now }
    selectivity := some fraction
    bestStrategy := some (.best fraction preLatency postLatency) }

/-- The estimator after a filter let a fraction pass; latencies are in nanoseconds. An outcome that
is not valid is not recorded. -/
def observeFilter (e : Estimator) (p : FilterProfile) (fraction : Float) (cardinality : UInt64)
    (preLatency postLatency : Option Nat) (now : Timestamp) : Estimator :=
  if Target.selectivity.accepts fraction then
    { e with
      history := e.history.observe p.property fraction cardinality now
      backlog := e.backlog.push (filterRecord p fraction preLatency postLatency now) }
  else e

/-- The summary of an estimator's state. -/
def inspection (e : Estimator) : String :=
  "Estimator \x7b config: " ++ e.settings.inspection
    ++ ", has_model: " ++ toString e.active.isSome
    ++ ", observations: " ++ toString e.backlog.records.length ++ " \x7d"

end Estimator

end QueryForecast
