import QueryForecast.Proofs.Log.Observed
import QueryForecast.Proofs.Numeric.Undefined
import QueryForecast.Proofs.Serving.Total

/-!
# The range of selectivity estimates

An estimated selectivity comes from the active model, from the median of past filters, from the share of
distinct values in the corpus, or is a constant. All of them are moved into the range of selectivities,
but an undefined number stays where it is. Here it is followed where one could come from.

* `Estimator.after_eq` — what an event does to an estimator.
* `History.Defined` — no kept observation is undefined; `Estimator.defined_after` and
  `Estimator.defined_afterAll` say that this is so whatever an estimator is used for.
* `History.isNaN_pastMedian_fill` — so filling in the history makes no median undefined.
* `Model.inRange_of_estimate` — what a model answers is in the range of its target.
* `Heuristic.inRange_selectivity_iff` — the closed form is in the range, unless the median is undefined.
* `Estimator.estimateSelectivity_inRange_iff` — when an estimate is in the range, in every state.
-/

namespace QueryForecast

open Numeric Time

/-! ## History -/

namespace History

/-- No kept observation is undefined. -/
def Defined (h : History) : Prop :=
  ∀ entry ∈ h.entries, ∀ x ∈ entry.2.samples, x.isNaN = false

theorem forall_mem_update {P : String × PropertyHistory → Prop} {property : String}
    {change : PropertyHistory → PropertyHistory} {entries : List (String × PropertyHistory)}
    (h : ∀ entry ∈ entries, P entry) (h0 : P (property, change {}))
    (hc : ∀ entry, P entry → P (entry.1, change entry.2)) :
    ∀ entry ∈ update property change entries, P entry := by
  induction entries with
  | nil => exact fun entry he => List.mem_singleton.1 he ▸ h0
  | cons first rest ih =>
    rw [List.forall_mem_cons] at h
    unfold update
    split
    · exact List.forall_mem_cons.2 ⟨hc first h.1, h.2⟩
    · exact List.forall_mem_cons.2 ⟨h.1, ih h.2⟩

theorem Defined.observe {h : History} (hd : h.Defined) {selectivity : Float}
    (hs : selectivity.isNaN = false) (property : String) (cardinality : UInt64) (now : Timestamp) :
    (h.observe property selectivity cardinality now).Defined := by
  have hobserve : ∀ past : PropertyHistory, (∀ x ∈ past.samples, x.isNaN = false) →
      ∀ x ∈ (past.observe selectivity cardinality now).samples, x.isNaN = false := by
    intro past hp x hx
    rcases List.mem_append.1 (List.mem_of_mem_drop hx) with hx | hx
    · exact hp x hx
    · rw [List.mem_singleton.1 hx]
      exact hs
  exact forall_mem_update hd (hobserve {} nofun) fun entry => hobserve entry.2

theorem Defined.get? {h : History} (hd : h.Defined) {property : String} {past : PropertyHistory}
    (hp : h.get? property = some past) : ∀ x ∈ past.samples, x.isNaN = false := by
  obtain ⟨entry, he, rfl⟩ : ∃ entry ∈ h.entries, entry.2 = past := by
    unfold History.get? at hp
    rw [List.lookup_eq_some_iff] at hp
    obtain ⟨before, after, he, -⟩ := hp
    exact ⟨(property, past), by simp [he], rfl⟩
  exact hd entry he

/-- **Filling in the history makes no median undefined**, and leaves one that is. -/
theorem isNaN_pastMedian_fill {h : History} (hd : h.Defined) (p : FilterProfile) :
    (h.fill p).pastMedian.isNaN = p.pastMedian.isNaN := by
  unfold fill
  cases hp : h.get? p.property with
  | none => rfl
  | some past =>
    dsimp only
    split
    · rename_i h0
      rw [show past.median.isNaN = false from isNaN_percentile (hd.get? hp) _]
      cases hn : p.pastMedian.isNaN with
      | false => rfl
      | true =>
        rw [beq_of_isNaN hn] at h0
        cases h0
    · rfl

end History

/-! ## Estimates -/

namespace Target

theorem not_inRange_of_isNaN {t : Target} {y : Float} (h : y.isNaN = true) : ¬ t.InRange y := by
  intro hr
  cases t with
  | cardinality => exact not_le_of_isNaN h _ hr.1
  | selectivity => exact not_le_of_isNaN h _ hr.1

end Target

/-- **What a model answers is in the range of its target.** -/
theorem Model.inRange_of_estimate {m : Model} {v : FeatureVector} {y : Float}
    (h : m.estimate v = .ok y) : m.target.InRange y := by
  unfold Model.estimate at h
  cases hf : m.fitted with
  | error failure =>
    rw [hf] at h
    cases h
  | ok parts =>
    rw [hf] at h
    change m.estimateRow _ = .ok y at h
    unfold estimateRow at h
    cases hs : m.score (parts.1.align v).toArray with
    | error failure =>
      rw [hs] at h
      cases h
    | ok score =>
      rw [hs] at h
      dsimp only [bind, Except.bind] at h
      cases hn : score.isNaN with
      | true =>
        rw [show m.target.ofScore? score = none by unfold Target.ofScore?; rw [if_pos hn]] at h
        cases h
      | false =>
        obtain ⟨y', hy, hr⟩ := m.target.ofScore?_of_isNaN hn
        rw [hy] at h
        cases h
        exact hr

/-- **The closed form is in the range, unless the median is undefined.** -/
theorem Heuristic.inRange_selectivity_iff (p : FilterProfile) :
    Target.selectivity.InRange (selectivity p) ↔ p.pastMedian.isNaN = false := by
  constructor
  · intro hr
    by_contra hn
    have hn : p.pastMedian.isNaN = true := by simpa using hn
    unfold selectivity at hr
    rw [bne, beq_of_isNaN hn, Bool.not_false, if_pos rfl, clamp_of_isNaN hn] at hr
    exact Target.not_inRange_of_isNaN hn hr
  · intro hn
    refine clamp_mem (by decide) (by decide) ?_ (by decide) (by decide) (by decide)
    split
    · exact hn
    · split
      · rename_i h
        exact isNaN_toFloat_div h.2
      · decide

/-! ## Estimators in use -/

namespace Estimator

/-- What an estimator is used for between estimates. -/
inductive Event where
  | activate (m : Model)
  | load (s : Storage) (path : String)
  | deactivate
  | observeCardinality (q : Query) (rows : Float) (now : Timestamp)
  | observeFilter (p : FilterProfile) (fraction : Float) (cardinality : UInt64)
      (preLatency postLatency : Option Nat) (now : Timestamp)

/-- The estimator after an event. A model that cannot be made active leaves it as it was. -/
def after (e : Estimator) : Event → Estimator
  | .activate m =>
    match e.activate m with
    | .ok (_, e') => e'
    | .error _ => e
  | .load s path =>
    match e.loadModel s path with
    | .ok e' => e'
    | .error _ => e
  | .deactivate => e.deactivate.2
  | .observeCardinality q rows now => e.observeCardinality q rows now
  | .observeFilter p fraction cardinality preLatency postLatency now =>
    e.observeFilter p fraction cardinality preLatency postLatency now

/-- A new estimator after some events. -/
def afterAll (settings : EstimatorSettings) (events : List Event) : Estimator :=
  events.foldl after (start settings)

/-- What an event leaves in the model slot, by what was in it. A model that was not fitted, or that
cannot be read, is not put in. -/
def Event.slot (active : Option Model) : Event → Option Model
  | .activate m => if m.isTrained then some m else active
  | .load s path =>
    match Model.load s path with
    | .ok m => if m.isTrained then some m else active
    | .error _ => active
  | .deactivate => none
  | .observeCardinality _ _ _ | .observeFilter _ _ _ _ _ _ => active

/-- The history of properties with the outcome that an event reports, if it is valid. -/
def Event.recordIn (history : History) : Event → History
  | .observeFilter p fraction cardinality _ _ now =>
    if Target.selectivity.accepts fraction then
      history.observe p.property fraction cardinality now
    else history
  | .activate _ | .load _ _ | .deactivate | .observeCardinality _ _ _ => history

/-- The record of the outcome that an event reports, if it is valid. -/
def Event.record? : Event → Option ExecutionRecord
  | .observeCardinality q rows now =>
    if Target.cardinality.accepts rows then some (.ofCardinality (stamped q now) rows) else none
  | .observeFilter p fraction _ preLatency postLatency now =>
    if Target.selectivity.accepts fraction then
      some (filterRecord p fraction preLatency postLatency now)
    else none
  | .activate _ | .load _ _ | .deactivate => none

theorem loadModel_of_load {e : Estimator} {s : Storage} {path : String} {m : Model}
    (h : Model.load s path = .ok m) :
    e.loadModel s path =
      if m.isTrained then .ok { e with active := some m } else .error .notTrained := by
  unfold loadModel activate
  rw [h]
  dsimp only [bind, Except.bind]
  cases m.isTrained <;> rfl

theorem loadModel_of_load_error {e : Estimator} {s : Storage} {path : String} {failure : Failure}
    (h : Model.load s path = .error failure) : e.loadModel s path = .error failure := by
  unfold loadModel
  rw [h]
  rfl

/-- **What an event does** to the slot, to the history and to the backlog. It does nothing else. -/
theorem after_eq (e : Estimator) (event : Event) :
    e.after event =
      { e with
        active := event.slot e.active
        history := event.recordIn e.history
        backlog := event.record?.elim e.backlog e.backlog.push } := by
  cases event with
  | activate m =>
    unfold after activate Event.slot
    dsimp only
    cases m.isTrained <;> rfl
  | load s path =>
    unfold after Event.slot
    dsimp only
    cases hl : Model.load s path with
    | error failure =>
      rw [loadModel_of_load_error hl]
      rfl
    | ok m =>
      rw [loadModel_of_load hl]
      dsimp only
      cases m.isTrained <;> rfl
  | deactivate => rfl
  | observeCardinality q rows now =>
    unfold after observeCardinality Event.record?
    dsimp only
    cases Target.cardinality.accepts rows <;> rfl
  | observeFilter p fraction cardinality preLatency postLatency now =>
    unfold after observeFilter Event.recordIn Event.record?
    dsimp only
    cases Target.selectivity.accepts fraction <;> rfl

/-- **No event makes a kept observation undefined**: those that are kept were valid. -/
theorem defined_after {e : Estimator} (hd : e.history.Defined) (event : Event) :
    (e.after event).history.Defined := by
  rw [after_eq]
  show (event.recordIn e.history).Defined
  unfold Event.recordIn
  split
  · split
    · rename_i ha
      exact hd.observe (isNaN_of_isFinite (ExecutionRecord.isFinite_of_accepts ha)) _ _ _
    · exact hd
  all_goals exact hd

theorem defined_foldl_after {e : Estimator} (hd : e.history.Defined) (events : List Event) :
    (events.foldl after e).history.Defined := by
  induction events generalizing e with
  | nil => exact hd
  | cons event events ih => exact ih (defined_after hd event)

theorem defined_afterAll (settings : EstimatorSettings) (events : List Event) :
    (afterAll settings events).history.Defined :=
  defined_foldl_after (e := start settings) nofun events

theorem inRange_of_modelSelectivity? {e : Estimator} {p : FilterProfile} {m : Model} {y : Float}
    (h : e.modelSelectivity? p = some (m, y)) : Target.selectivity.InRange y := by
  unfold modelSelectivity? at h
  obtain ⟨m', hm, h⟩ := Option.bind_eq_some_iff.1 h
  obtain ⟨y', hy, h⟩ := Option.bind_eq_some_iff.1 h
  cases h
  have ht : m.target = .selectivity := by
    have ht := (Option.filter_eq_some_iff.1 hm).2
    simpa using ht
  cases he : m.estimate p.vector with
  | error failure =>
    rw [he] at hy
    cases hy
  | ok z =>
    rw [he] at hy
    cases hy
    rw [← ht]
    exact Model.inRange_of_estimate he

/-- **An estimated selectivity is in the range exactly when it does not come from an undefined
median**, whatever the estimator was used for before and whatever the other fields of the profile
are. -/
theorem estimateSelectivity_inRange_iff (settings : EstimatorSettings) (events : List Event)
    (p : FilterProfile) :
    Target.selectivity.InRange ((afterAll settings events).estimateSelectivity p).selectivity ↔
      ¬ (((afterAll settings events).estimateSelectivity p).source = .fallback ∧
        p.pastMedian.isNaN = true) := by
  have hd := defined_afterAll settings events
  generalize afterAll settings events = e at hd
  have hn := History.isNaN_pastMedian_fill hd p
  unfold estimateSelectivity
  dsimp only
  cases hm : e.modelSelectivity? (e.history.fill p) with
  | some answer =>
    obtain ⟨m, y⟩ := answer
    refine ⟨fun _ h => ?_, fun _ => inRange_of_modelSelectivity? hm⟩
    cases h.1
  | none =>
    dsimp only
    rw [Heuristic.inRange_selectivity_iff, hn, ← Bool.not_eq_true]
    simp

/-- A profile with an undefined median, which a new estimator passes on. -/
theorem exists_undefined_selectivity :
    ∃ p : FilterProfile, p.pastMedian.isNaN = true ∧
      ((afterAll {} []).estimateSelectivity p).source = .fallback ∧
      ¬ 0.001 ≤ ((afterAll {} []).estimateSelectivity p).selectivity ∧
      ¬ ((afterAll {} []).estimateSelectivity p).selectivity ≤ 1.0 := by
  refine ⟨{ pastMedian := 0.0 / 0.0 }, ?_⟩
  decide +kernel

end Estimator

end QueryForecast
