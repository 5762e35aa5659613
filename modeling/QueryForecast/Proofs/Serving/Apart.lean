import QueryForecast.Proofs.Serving.Recorded

/-!
# What an estimate depends on

An estimator has one slot for the models of both targets, one history for all properties, and
correlations of columns that it learns once. An estimate for row counts looks at the slot and at the
correlations, one for a selectivity at the slot, at the threshold and at the history of its property.
So two estimators that were used differently answer alike as soon as they agree on these.

* `Query.correlation_congr`, `History.fill_congr` — what is read of correlations and of a history.
* `Estimator.afterRequests_eq` — learning correlations and everything else do not meet.
* `Estimator.get?_history_afterRequests` — the history of a property in terms of its own outcomes.
* `Estimator.estimates_agree` — two uses of two estimators.
-/

namespace QueryForecast

open Time

/-! ## Correlations -/

namespace Correlations

variable {c d : Correlations}

theorem strength?_congr (h : ∀ a b, c.get? a b = d.get? a b) (a b : String) :
    c.strength? a b = d.strength? a b := by
  unfold strength?
  rw [h a b]

theorem strongest_congr (h : ∀ a b, c.get? a b = d.get? a b) (columns : List String) :
    c.strongest columns = d.strongest columns := by
  unfold strongest
  congr 1
  exact List.filterMap_congr fun pair _ => strength?_congr h pair.1 pair.2

/-- Without a coefficient no pair of columns is correlated. -/
theorem strongest_of_get?_eq_none (h : ∀ a b, c.get? a b = none) (columns : List String) :
    c.strongest columns = 0.0 := by
  have hs : ∀ pair : String × String, c.strength? pair.1 pair.2 = none := by
    intro pair
    unfold strength?
    rw [h]
    split <;> rfl
  unfold strongest
  rw [List.filterMap_eq_nil_iff.2 fun pair _ => hs pair]
  rfl

/-- The coefficient of two columns, as far as coefficients are known. -/
def coefficient? (known : Option Correlations) (a b : String) : Option Float :=
  known.bind fun c => c.get? a b

end Correlations

/-- Of correlations nothing is read but their coefficients. -/
theorem Query.correlation_congr {known known' : Option Correlations}
    (h : ∀ a b, Correlations.coefficient? known a b = Correlations.coefficient? known' a b)
    (q : Query) :
    q.correlation known = q.correlation known' := by
  cases known with
  | none =>
    cases known' with
    | none => rfl
    | some d => exact (Correlations.strongest_of_get?_eq_none (fun a b => (h a b).symm) _).symm
  | some c =>
    cases known' with
    | none => exact Correlations.strongest_of_get?_eq_none h _
    | some d => exact Correlations.strongest_congr h _

theorem Query.cardinalityVector_congr {known known' : Option Correlations}
    (h : ∀ a b, Correlations.coefficient? known a b = Correlations.coefficient? known' a b)
    (q : Query) :
    q.cardinalityVector known = q.cardinalityVector known' := by
  unfold Query.cardinalityVector Query.cardinalityValues
  rw [q.correlation_congr h]

/-! ## Histories -/

/-- What filling in reads of a property's history. -/
def PropertyHistory.filled (past : PropertyHistory) : UInt64 × List Float :=
  (past.cardinality, past.samples)

/-- Of a history nothing is read but the greatest number of distinct values and the kept outcomes of
the one property. -/
theorem History.fill_congr {h h' : History} {p : FilterProfile}
    (hp : (h.get? p.property).map PropertyHistory.filled =
      (h'.get? p.property).map PropertyHistory.filled) : h.fill p = h'.fill p := by
  unfold History.fill
  cases hg : h.get? p.property with
  | none =>
    rw [hg, Option.map_none, eq_comm, Option.map_eq_none_iff] at hp
    rw [hp]
  | some past =>
    rw [hg, Option.map_some, eq_comm, Option.map_eq_some_iff] at hp
    obtain ⟨past', hg', he⟩ := hp
    obtain ⟨hc, hs⟩ := Prod.mk.inj he
    rw [hg']
    dsimp only
    unfold PropertyHistory.median PropertyHistory.high
    rw [hc, hs]

/-! ## Requests -/

namespace Estimator

/-- What an estimator is asked to do: a call, or to learn the correlations of columns. -/
inductive Request where
  | call (c : Call)
  | learn (c : Correlations)

/-- The call that a request is, if it is one. -/
def Request.call? : Request → Option Call
  | .call c => some c
  | .learn _ => none

/-- The correlations that a request brings, if it does. -/
def Request.correlations? : Request → Option Correlations
  | .call _ => none
  | .learn c => some c

/-- The estimator after a request. -/
def serve (e : Estimator) : Request → Estimator
  | .call c => e.next c
  | .learn c => (e.learnCorrelations c).2

/-- A new estimator after some requests. -/
def afterRequests (settings : EstimatorSettings) (requests : List Request) : Estimator :=
  requests.foldl serve (start settings)

theorem afterRequests_concat (settings : EstimatorSettings) (requests : List Request)
    (request : Request) :
    afterRequests settings (requests ++ [request]) =
      (afterRequests settings requests).serve request := by
  unfold afterRequests
  rw [List.foldl_append]
  rfl

/-- The valid outcomes that were reported for a property, each with the number of distinct values that
came with it, the first one first. -/
def reported (property : String) (requests : List Request) : List (Float × UInt64) :=
  (outcomesOf property (requests.filterMap Request.call?)).map fun o => (o.fraction, o.cardinality)

/-- The estimator with other correlations. -/
def withCorrelations (e : Estimator) (known : Option Correlations) : Estimator :=
  { e with correlations := known }

/-- A call neither reads correlations nor changes them. -/
theorem next_withCorrelations (e : Estimator) (known : Option Correlations) (c : Call) :
    (e.withCorrelations known).next c = (e.next c).withCorrelations known := by
  cases c with
  | event event =>
    show (e.withCorrelations known).after event = (e.after event).withCorrelations known
    rw [after_eq, after_eq]
    rfl
  | estimateCardinality q now => rfl
  | estimateSelectivity p => rfl
  | filtersFirst p => rfl

/-- The first correlations are kept. -/
theorem learn_head? (known : List Correlations) (c : Correlations) :
    (Correlations.learn known.head? c).2 = (known ++ [c]).head? := by
  cases known <;> rfl

/-- **Requests do two things that do not meet**: their calls are made, and the first correlations
that they bring are learned. -/
theorem afterRequests_eq (settings : EstimatorSettings) (requests : List Request) :
    afterRequests settings requests =
      (afterCalls settings (requests.filterMap Request.call?)).withCorrelations
        (requests.filterMap Request.correlations?).head? := by
  induction requests using List.reverseRecOn with
  | nil => rfl
  | append_singleton requests request ih =>
    rw [afterRequests_concat, ih, List.filterMap_append, List.filterMap_append]
    cases request with
    | call c =>
      show (withCorrelations _ _).next c =
        (afterCalls settings (requests.filterMap Request.call? ++ [c])).withCorrelations
          (requests.filterMap Request.correlations? ++ []).head?
      rw [next_withCorrelations, afterCalls_concat, List.append_nil]
    | learn c =>
      show withCorrelations _ (Correlations.learn (List.head? _) c).2 =
        (afterCalls settings (requests.filterMap Request.call? ++ [])).withCorrelations
          (requests.filterMap Request.correlations? ++ [c]).head?
      rw [learn_head?, List.append_nil]
      rfl

/-- **The history of a property comes from its own outcomes.** -/
theorem get?_history_afterRequests (settings : EstimatorSettings) (requests : List Request)
    (property : String) :
    ((afterRequests settings requests).history.get? property).map PropertyHistory.filled =
      if reported property requests = [] then none
      else some (((reported property requests).map (·.2)).foldl max 0,
        ((reported property requests).map (·.1)).rtake maxSamples) := by
  have hh := (remembers_afterCalls settings (requests.filterMap Request.call?)).history property
  rw [afterRequests_eq]
  show (((afterCalls settings (requests.filterMap Request.call?)).history.get? property).map _) = _
  rw [hh]
  unfold reported
  by_cases ho : outcomesOf property (requests.filterMap Request.call?) = []
  · rw [if_pos ho, ho]
    rfl
  · rw [if_neg ho, if_neg (fun hn => ho (List.map_eq_nil_iff.1 hn)), List.map_map, List.map_map]
    rfl

/-! ## Estimates -/

theorem modelCardinality?_congr {e e' : Estimator}
    (hm : e.activeFor? .cardinality = e'.activeFor? .cardinality)
    (hc : ∀ a b, Correlations.coefficient? e.correlations a b =
      Correlations.coefficient? e'.correlations a b)
    {q : Query} (ht : q.timestamp.isSome = true) (now now' : Timestamp) :
    e.modelCardinality? q now = e'.modelCardinality? q now' := by
  -- A timestamp of the query's own leaves no use for the clock.
  have hstamp : ∀ now, stamped q now = q := by
    intro now
    obtain ⟨t, ht⟩ := Option.isSome_iff_exists.1 ht
    unfold stamped
    rw [ht, Option.getD_some, ← ht]
  have hv : ∀ (e : Estimator) now, e.cardinalityVector q now = q.cardinalityVector e.correlations := by
    intro e now
    unfold cardinalityVector
    rw [hstamp, ite_self]
    rfl
  unfold modelCardinality?
  rw [hm, hv, hv, q.cardinalityVector_congr hc]

theorem modelSelectivity?_congr {e e' : Estimator}
    (hm : e.activeFor? .selectivity = e'.activeFor? .selectivity) (p : FilterProfile) :
    e.modelSelectivity? p = e'.modelSelectivity? p := by
  unfold modelSelectivity?
  rw [hm]

/-- **Two uses of two estimators.** Whatever they were asked before, they give the same estimate of a
row count when they have the same model for row counts, or none, and know the same correlations, and
the query comes with its time. They give the same estimate of a selectivity when they have the same
threshold, the same model for selectivities, or none, and the same valid outcomes were reported for
the property. -/
theorem estimates_agree (settings settings' : EstimatorSettings)
    (requests requests' : List Request) :
    let e := afterRequests settings requests
    let e' := afterRequests settings' requests'
    (e.activeFor? .cardinality = e'.activeFor? .cardinality →
      (∀ a b, Correlations.coefficient? e.correlations a b =
        Correlations.coefficient? e'.correlations a b) →
      ∀ q : Query, q.timestamp.isSome = true → ∀ now now',
        e.estimateCardinality q now = e'.estimateCardinality q now') ∧
    (e.settings.preFilterThreshold = e'.settings.preFilterThreshold →
      e.activeFor? .selectivity = e'.activeFor? .selectivity →
      ∀ property, reported property requests = reported property requests' →
        ∀ p : FilterProfile, p.property = property →
          e.estimateSelectivity p = e'.estimateSelectivity p) := by
  intro e e'
  constructor
  · intro hm hc q ht now now'
    unfold estimateCardinality
    rw [modelCardinality?_congr hm hc ht now now']
  · intro hs hm property hr p hp
    have hfill : e.history.fill p = e'.history.fill p := by
      apply History.fill_congr
      rw [get?_history_afterRequests, get?_history_afterRequests, hp, hr]
    unfold estimateSelectivity
    dsimp only
    rw [hfill, hs, modelSelectivity?_congr hm]

/-- A model without trees. -/
def baseModel (t : Target) : Model :=
  { Model.untrained t {} with
    schema := (Schema.ofNames t.baseFeatures).toOption
    ensemble := some
      { baseScore := 0.5
        width := t.baseFeatures.length
        trees := []
        columnGain := t.baseFeatures.map fun _ => 0.0 }
    trained := true }

/-- A model for row counts is activated, correlations are learned, and a filter on colors runs. -/
def directRequests : List Request :=
  [.call (.event (.activate (baseModel .cardinality))),
    .learn (.ofList [("color", "size", 0.5)]),
    .call (.event (.observeFilter { property := "color" } 0.25 9 none none (.ofParts 19783 0 0)))]

/-- The same ends as those of `directRequests`, with a filter on another property, with a model for
selectivities that is replaced, and with correlations that come too late. -/
def roundaboutRequests : List Request :=
  [.call (.event (.observeFilter { property := "size" } 0.5 3 none none (.ofParts 19783 0 0))),
    .call (.event (.activate (baseModel .selectivity))),
    .call (.event (.observeFilter { property := "color", operator := "=" } 0.25 9 (some 5) (some 7)
      (.ofParts 19784 0 0))),
    .call (.estimateSelectivity { property := "color" }),
    .call (.event (.activate (baseModel .cardinality))),
    .learn (.ofList [("size", "color", 0.5)]),
    .learn {}]

theorem estimates_agree_of_roundabout :
    let e := afterRequests {} directRequests
    let e' := afterRequests { stampsMissingTime := false } roundaboutRequests
    (e.estimateCardinality { timestamp := some (.ofParts 19783 0 0) } (.ofParts 19790 0 0) =
      e'.estimateCardinality { timestamp := some (.ofParts 19783 0 0) } (.ofParts 19791 0 0)) ∧
    e.estimateSelectivity { property := "color" } =
      e'.estimateSelectivity { property := "color" } := by
  obtain ⟨hc, hs⟩ := estimates_agree {} { stampsMissingTime := false } directRequests
    roundaboutRequests
  exact ⟨hc rfl (fun _ _ => rfl) _ rfl _ _, hs rfl rfl "color" (by decide +kernel) _ rfl⟩

end Estimator

end QueryForecast
