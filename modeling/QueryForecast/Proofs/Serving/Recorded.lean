import QueryForecast.Proofs.Log.Flushed
import QueryForecast.Proofs.Outcome
import QueryForecast.Proofs.Serving.Bounded

/-!
# What an estimator remembers

The outcome of a filter goes into the history of its property and into the backlog, the row count of
a query into the backlog alone, and an outcome that is not valid into neither. The history keeps the
last outcomes of each property and the backlog the last records of all, but both count what they no
longer keep. So their counts agree, whatever the estimator is used for in between.

* `PropertyHistory.summary_append` — a history as a function of the outcomes of its property.
* `History.get?_observe`, `History.total_observe` — one outcome more.
* `Estimator.Remembers.next`, `Estimator.remembers_afterCalls` — one call, and all calls.
* `Estimator.history_and_backlog_agree` — what is left of the outcomes of any calls.
-/

namespace QueryForecast

open Time

/-! ## Histories -/

/-- A valid outcome of a filter on a property. -/
structure FilterOutcome where
  property : String
  fraction : Float
  /-- The number of distinct values of the property that was reported with it. -/
  cardinality : UInt64
  now : Timestamp

namespace PropertyHistory

/-- What is kept of the outcomes of a property, the first one first. -/
def summary (outcomes : List FilterOutcome) : PropertyHistory where
  cardinality := (outcomes.map (·.cardinality)).foldl max 0
  samples := (outcomes.map (·.fraction)).rtake maxSamples
  observations := outcomes.length
  updated := outcomes.getLast?.map (·.now)

/-- One outcome more. -/
theorem summary_append (outcomes : List FilterOutcome) (o : FilterOutcome) :
    summary (outcomes ++ [o]) = (summary outcomes).observe o.fraction o.cardinality o.now := by
  have hs : ((outcomes ++ [o]).map (·.fraction)).rtake maxSamples =
      (((outcomes.map (·.fraction)).rtake maxSamples) ++ [o.fraction]).rtake maxSamples := by
    rw [rtake_append_rtake, List.map_append, List.map_singleton]
  unfold summary observe
  rw [hs, List.map_append, List.foldl_append, List.length_append, List.getLast?_concat]
  unfold List.rtake
  rw [List.length_append, List.length_singleton]
  rfl

/-- A property has no history before its first outcome, and then the empty one is extended. -/
theorem getD_summary (outcomes : List FilterOutcome) :
    (if outcomes = [] then none else some (summary outcomes)).getD {} = summary outcomes := by
  split
  · rename_i h
    rw [h]
    rfl
  · rfl

theorem max_cases (m n : UInt64) : (max m n = m ∧ n ≤ m) ∨ (max m n = n ∧ m ≤ n) := by
  show ((if m ≤ n then n else m) = m ∧ n ≤ m) ∨ ((if m ≤ n then n else m) = n ∧ m ≤ n)
  split
  · exact .inr ⟨rfl, ‹_›⟩
  · exact .inl ⟨rfl, UInt64.le_of_lt (UInt64.not_le.1 ‹_›)⟩

theorem le_cardinality_summary {outcomes : List FilterOutcome} {o : FilterOutcome}
    (h : o ∈ outcomes) : o.cardinality ≤ (summary outcomes).cardinality := by
  induction outcomes using List.reverseRecOn with
  | nil => cases h
  | append_singleton outcomes last ih =>
    rw [summary_append]
    show o.cardinality ≤ max (summary outcomes).cardinality last.cardinality
    rcases max_cases (summary outcomes).cardinality last.cardinality with ⟨hm, hl⟩ | ⟨hm, hl⟩ <;>
      rw [hm] <;> rcases List.mem_append.1 h with ho | ho
    · exact ih ho
    · exact List.mem_singleton.1 ho ▸ hl
    · exact UInt64.le_trans (ih ho) hl
    · exact List.mem_singleton.1 ho ▸ UInt64.le_refl _

/-- The number of distinct values is one that was reported. -/
theorem cardinality_summary_mem {outcomes : List FilterOutcome} (h : outcomes ≠ []) :
    (summary outcomes).cardinality ∈ outcomes.map (·.cardinality) := by
  induction outcomes using List.reverseRecOn with
  | nil => exact absurd rfl h
  | append_singleton outcomes last ih =>
    rw [summary_append, List.map_append, List.mem_append]
    show max (summary outcomes).cardinality last.cardinality ∈ _ ∨
      max (summary outcomes).cardinality last.cardinality ∈ [last.cardinality]
    rcases max_cases (summary outcomes).cardinality last.cardinality with ⟨hm, hl⟩ | ⟨hm, -⟩
    · rw [hm]
      by_cases ho : outcomes = []
      · subst ho
        exact .inr (List.mem_singleton.2 (UInt64.le_antisymm UInt64.zero_le hl))
      · exact .inl (ih ho)
    · rw [hm]
      exact .inr List.mem_cons_self

end PropertyHistory

namespace History

variable {h : History} {property other : String} {change : PropertyHistory → PropertyHistory}
  {entries : List (String × PropertyHistory)}

theorem lookup_update :
    (update property change entries).lookup other =
      if other = property then some (change ((entries.lookup property).getD {}))
      else entries.lookup other := by
  induction entries with
  | nil => exact lookup_cons_eq property (change {})
  | cons first rest ih =>
    obtain ⟨name, past⟩ := first
    unfold update
    by_cases hn : name = property
    · subst hn
      rw [if_pos rfl, lookup_cons_eq, lookup_cons_eq, lookup_cons_eq, if_pos rfl]
      by_cases ho : other = name
      · rw [if_pos ho, if_pos ho]
        rfl
      · rw [if_neg ho, if_neg ho, if_neg ho]
    · rw [if_neg hn, lookup_cons_eq, lookup_cons_eq, lookup_cons_eq, if_neg (Ne.symm hn), ih]
      by_cases ho : other = name
      · rw [if_pos ho, if_pos ho, if_neg (ho ▸ hn)]
      · rw [if_neg ho, if_neg ho]

/-- A property is added when it has no history yet. -/
theorem names_update :
    (update property change entries).map (·.1) =
      if property ∈ entries.map (·.1) then entries.map (·.1)
      else entries.map (·.1) ++ [property] := by
  induction entries with
  | nil => rfl
  | cons first rest ih =>
    obtain ⟨name, past⟩ := first
    unfold update
    by_cases hn : name = property
    · rw [if_pos hn, if_pos (List.mem_map.2 ⟨(name, past), List.mem_cons_self, hn⟩)]
      rfl
    · rw [if_neg hn, List.map_cons, ih, List.map_cons]
      by_cases hr : property ∈ rest.map (·.1)
      · rw [if_pos hr, if_pos (List.mem_cons_of_mem _ hr)]
      · rw [if_neg hr, if_neg (List.not_mem_cons_of_ne_of_not_mem (Ne.symm hn) hr)]
        rfl

/-- The number of outcomes of all properties. -/
def total (h : History) : Nat :=
  (h.entries.map (·.2.observations)).sum

theorem sum_observations_update (hc : ∀ past, (change past).observations = past.observations + 1) :
    ((update property change entries).map (·.2.observations)).sum =
      (entries.map (·.2.observations)).sum + 1 := by
  induction entries with
  | nil => exact hc {}
  | cons first rest ih =>
    obtain ⟨name, past⟩ := first
    unfold update
    split
    · simp only [List.map_cons, List.sum_cons, hc]
      omega
    · simp only [List.map_cons, List.sum_cons, ih]
      omega

variable (h property) (fraction : Float) (cardinality : UInt64) (now : Timestamp)

theorem get?_observe :
    (h.observe property fraction cardinality now).get? other =
      if other = property then
        some (((h.get? property).getD {}).observe fraction cardinality now)
      else h.get? other :=
  lookup_update

theorem total_observe : (h.observe property fraction cardinality now).total = h.total + 1 :=
  sum_observations_update fun _ => rfl

theorem nodup_observe (hn : (h.entries.map (·.1)).Nodup) :
    ((h.observe property fraction cardinality now).entries.map (·.1)).Nodup := by
  unfold observe
  rw [names_update]
  split
  · exact hn
  · rename_i hm
    rw [← List.concat_eq_append]
    exact hn.concat hm

end History

/-! ## Calls -/

namespace Estimator

/-- A call on an estimator: an event, or a request for an estimate. -/
inductive Call where
  | event (event : Event)
  | estimateCardinality (q : Query) (now : Timestamp)
  | estimateSelectivity (p : FilterProfile)
  | filtersFirst (p : FilterProfile)

namespace Call

/-- The outcome of a filter that a call reports, if it does, and if it is within `[0, 1]`. -/
def filterOutcome? : Call → Option FilterOutcome
  | .event (.observeFilter p fraction cardinality _ _ now) =>
    if fraction.isFinite ∧ 0.0 ≤ fraction ∧ fraction ≤ 1.0 then
      some ⟨p.property, fraction, cardinality, now⟩
    else none
  | _ => none

/-- Whether a call reports a row count that is finite and not negative. -/
def countsRows : Call → Bool
  | .event (.observeCardinality _ rows _) => rows.isFinite && decide (0.0 ≤ rows)
  | _ => false

theorem filterOutcome?_observeFilter (p : FilterProfile) (fraction : Float) (cardinality : UInt64)
    (preLatency postLatency : Option Nat) (now : Timestamp) :
    filterOutcome? (.event (.observeFilter p fraction cardinality preLatency postLatency now)) =
      if Target.selectivity.accepts fraction then some ⟨p.property, fraction, cardinality, now⟩
      else none := by
  simp only [filterOutcome?, Target.accepts_iff, true_implies]

theorem countsRows_observeCardinality (q : Query) (rows : Float) (now : Timestamp) :
    countsRows (.event (.observeCardinality q rows now)) = Target.cardinality.accepts rows := by
  rw [Bool.eq_iff_iff, Target.accepts_iff]
  simp [countsRows]

end Call

/-- The estimator after a call. An estimate is handed out and leaves it as it was. -/
def next (e : Estimator) : Call → Estimator
  | .event event => e.after event
  | .estimateCardinality _ _ | .estimateSelectivity _ | .filtersFirst _ => e

/-- A new estimator after some calls. -/
def afterCalls (settings : EstimatorSettings) (calls : List Call) : Estimator :=
  calls.foldl next (start settings)

theorem afterCalls_concat (settings : EstimatorSettings) (calls : List Call) (c : Call) :
    afterCalls settings (calls ++ [c]) = (afterCalls settings calls).next c := by
  unfold afterCalls
  rw [List.foldl_append]
  rfl

/-- The valid outcomes that were reported for a property, the first one first. -/
def outcomesOf (property : String) (calls : List Call) : List FilterOutcome :=
  (calls.filterMap Call.filterOutcome?).filter fun o => o.property == property

theorem outcomesOf_append_of_none {c : Call} (h : c.filterOutcome? = none) (property : String)
    (calls : List Call) : outcomesOf property (calls ++ [c]) = outcomesOf property calls := by
  unfold outcomesOf
  rw [List.filterMap_append, List.filterMap_cons_none h, List.filterMap_nil, List.append_nil]

theorem outcomesOf_append_of_some {c : Call} {o : FilterOutcome} (h : c.filterOutcome? = some o)
    (property : String) (calls : List Call) :
    outcomesOf property (calls ++ [c]) =
      if property = o.property then outcomesOf property calls ++ [o]
      else outcomesOf property calls := by
  unfold outcomesOf
  rw [List.filterMap_append, List.filterMap_cons_some h, List.filterMap_nil, List.filter_append]
  by_cases hp : property = o.property
  · rw [if_pos hp, List.filter_cons_of_pos (by simpa using hp.symm), List.filter_nil]
  · rw [if_neg hp, List.filter_cons_of_neg (by simpa using Ne.symm hp), List.filter_nil,
      List.append_nil]

/-- **What a call does**: it records the outcome of a filter, or a row count, or it changes nothing
but the active model. -/
theorem next_cases (e : Estimator) (c : Call) :
    (∃ o record, c.filterOutcome? = some o ∧ c.countsRows = false ∧
      e.next c = { e with
        history := e.history.observe o.property o.fraction o.cardinality o.now
        backlog := e.backlog.push record }) ∨
    (∃ record, c.filterOutcome? = none ∧ c.countsRows = true ∧
      e.next c = { e with backlog := e.backlog.push record }) ∨
    (∃ active, c.filterOutcome? = none ∧ c.countsRows = false ∧
      e.next c = { e with active := active }) := by
  cases c with
  | event event =>
    rw [show e.next (.event event) = e.after event from rfl, after_eq]
    cases event with
    | activate m => exact .inr (.inr ⟨_, rfl, rfl, rfl⟩)
    | load s path => exact .inr (.inr ⟨_, rfl, rfl, rfl⟩)
    | deactivate => exact .inr (.inr ⟨_, rfl, rfl, rfl⟩)
    | observeCardinality q rows now =>
      right
      rw [Call.countsRows_observeCardinality]
      unfold Event.record?
      dsimp only
      cases Target.cardinality.accepts rows with
      | true => exact .inl ⟨_, rfl, rfl, rfl⟩
      | false => exact .inr ⟨e.active, rfl, rfl, rfl⟩
    | observeFilter p fraction cardinality preLatency postLatency now =>
      rw [Call.filterOutcome?_observeFilter]
      unfold Event.recordIn Event.record?
      dsimp only
      cases Target.selectivity.accepts fraction with
      | true => exact .inl ⟨_, _, rfl, rfl, rfl⟩
      | false => exact .inr (.inr ⟨e.active, rfl, rfl, rfl⟩)
  | estimateCardinality q now => exact .inr (.inr ⟨e.active, rfl, rfl, rfl⟩)
  | estimateSelectivity p => exact .inr (.inr ⟨e.active, rfl, rfl, rfl⟩)
  | filtersFirst p => exact .inr (.inr ⟨e.active, rfl, rfl, rfl⟩)

/-- An estimator remembers some calls: for each property what is kept of its outcomes, and the number
of all outcomes. No property occurs twice. -/
structure Remembers (e : Estimator) (calls : List Call) : Prop where
  history : ∀ property, e.history.get? property =
    if outcomesOf property calls = [] then none
    else some (.summary (outcomesOf property calls))
  names : (e.history.entries.map (·.1)).Nodup
  accepted : e.backlog.accepted = e.history.total + calls.countP Call.countsRows

/-- **One call more.** -/
theorem Remembers.next {e : Estimator} {calls : List Call} (h : e.Remembers calls) (c : Call) :
    (e.next c).Remembers (calls ++ [c]) := by
  obtain ⟨hh, hn, ha⟩ := h
  have hcount : (calls ++ [c]).countP Call.countsRows =
      calls.countP Call.countsRows + if c.countsRows then 1 else 0 := by
    rw [List.countP_append, List.countP_singleton]
  rcases next_cases e c with
    ⟨o, record, ho, hc, he⟩ | ⟨record, ho, hc, he⟩ | ⟨active, ho, hc, he⟩ <;>
    rw [he] <;> rw [hc] at hcount
  · refine ⟨fun property => ?_, History.nodup_observe _ _ _ _ _ hn, ?_⟩
    · rw [History.get?_observe, outcomesOf_append_of_some ho]
      by_cases hp : property = o.property
      · subst hp
        rw [if_pos rfl, if_pos rfl, if_neg (List.append_ne_nil_of_right_ne_nil _ (by simp)),
          PropertyHistory.summary_append, hh, PropertyHistory.getD_summary]
      · rw [if_neg hp, if_neg hp]
        exact hh property
    · rw [hcount, History.total_observe]
      show e.backlog.accepted + 1 = e.history.total + 1 + (calls.countP Call.countsRows + 0)
      omega
  · refine ⟨fun property => ?_, hn, ?_⟩
    · rw [outcomesOf_append_of_none ho]
      exact hh property
    · rw [hcount]
      show e.backlog.accepted + 1 = e.history.total + (calls.countP Call.countsRows + 1)
      omega
  · refine ⟨fun property => ?_, hn, ?_⟩
    · rw [outcomesOf_append_of_none ho]
      exact hh property
    · rw [hcount]
      exact ha

/-- **All calls.** -/
theorem remembers_afterCalls (settings : EstimatorSettings) (calls : List Call) :
    (afterCalls settings calls).Remembers calls := by
  induction calls using List.reverseRecOn with
  | nil => exact ⟨fun _ => rfl, List.nodup_nil, rfl⟩
  | append_singleton calls c ih =>
    rw [afterCalls_concat]
    exact ih.next c

/-- **History and backlog agree.** After any calls on a new estimator a property has a history exactly
when a valid outcome was reported for it. The history holds the last hundred of these outcomes, the
number of all of them, and the greatest number of distinct values that came with them. The backlog
has counted the outcomes of all properties, and the row counts that are finite and not negative. -/
theorem history_and_backlog_agree (settings : EstimatorSettings) (calls : List Call) :
    let e := afterCalls settings calls
    (∀ property,
      (e.history.get? property = none ↔ outcomesOf property calls = []) ∧
      ∀ past, e.history.get? property = some past →
        past.samples = ((outcomesOf property calls).map (·.fraction)).rtake 100 ∧
        past.observations = (outcomesOf property calls).length ∧
        past.cardinality ∈ (outcomesOf property calls).map (·.cardinality) ∧
        ∀ o ∈ outcomesOf property calls, o.cardinality ≤ past.cardinality) ∧
    (e.history.entries.map (·.1)).Nodup ∧
    e.backlog.accepted =
      (e.history.entries.map (·.2.observations)).sum + calls.countP Call.countsRows := by
  intro e
  obtain ⟨hh, hn, ha⟩ := remembers_afterCalls settings calls
  refine ⟨fun property => ?_, hn, ha⟩
  have hp := hh property
  by_cases ho : outcomesOf property calls = []
  · rw [if_pos ho] at hp
    exact ⟨iff_of_true hp ho, fun past hpast => nomatch hp.symm.trans hpast⟩
  · rw [if_neg ho] at hp
    refine ⟨iff_of_false (by rw [hp]; exact Option.some_ne_none _) ho, fun past hpast => ?_⟩
    cases hp.symm.trans hpast
    exact ⟨rfl, rfl, PropertyHistory.cardinality_summary_mem ho,
      fun o ho => PropertyHistory.le_cardinality_summary ho⟩

end Estimator

end QueryForecast
