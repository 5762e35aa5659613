import QueryForecast.Proofs.Numeric.Extended
import QueryForecast.Proofs.Numeric.Percentile
import QueryForecast.Proofs.Serving.Recorded

/-!
# Estimates follow what was observed

Without a model, the estimated selectivity of a filter is the median of what past filters on its property
passed. The median follows the observations, and so does the estimate. But a median of zero stands for
no median: then the estimate is made without one, and it may be above that of greater observations.

* `Estimator.keptMedian` — the median that a history comes to after some calls.
* `Estimator.selectivity_without_model` — the estimate as a function of what was observed.
* `Estimator.keptMedian_le` — the median follows the observations.
* `Estimator.selectivity_follows_observations_iff` — when the estimate does.
-/

namespace QueryForecast

open Numeric Time

/-- The closed form goes by the median, unless that is zero. -/
theorem Heuristic.selectivity_eq (p : FilterProfile) :
    selectivity p =
      if p.pastMedian == 0.0 then selectivity { p with pastMedian := 0.0 }
      else clamp minSelectivity 1.0 p.pastMedian := by
  have h0 : ((0.0 : Float) != 0.0) = false := by decide
  unfold selectivity
  rw [bne]
  cases h : p.pastMedian == 0.0 with
  | true => simp [h0]
  | false => simp

namespace Estimator

/-! ## What was observed -/

/-- The median of the selectivities that are kept for a property; zero when there are none. -/
def keptMedian (property : String) (calls : List Call) : Float :=
  percentile (((outcomesOf property calls).map (·.fraction)).rtake maxSamples) 0.5

/-- The greatest number of distinct values that was reported for a property. -/
def reportedCardinality (property : String) (calls : List Call) : UInt64 :=
  ((outcomesOf property calls).map (·.cardinality)).foldl max 0

/-- The estimate for a profile without a median: the share of distinct values, with the reported number
of them when the profile has none, or else a constant. -/
def withoutMedian (p : FilterProfile) (calls : List Call) : Float :=
  Heuristic.selectivity
    { p with
      pastMedian := 0.0
      propertyCardinality := if p.propertyCardinality = 0 then reportedCardinality p.property calls
        else p.propertyCardinality }

/-- **The estimate without a model** for a profile that leaves the median open. -/
theorem selectivity_without_model {settings : EstimatorSettings} {calls : List Call}
    {p : FilterProfile} (ha : (afterCalls settings calls).active = none)
    (hp : (p.pastMedian == 0.0) = true) :
    ((afterCalls settings calls).estimateSelectivity p).selectivity =
      if keptMedian p.property calls == 0.0 then withoutMedian p calls
      else clamp minSelectivity 1.0 (keptMedian p.property calls) := by
  have hh := (remembers_afterCalls settings calls).history p.property
  generalize afterCalls settings calls = e at ha hh
  have hm : e.modelSelectivity? (e.history.fill p) = none := by
    unfold modelSelectivity? activeFor?
    rw [ha]
    rfl
  unfold estimateSelectivity
  dsimp only
  rw [hm]
  dsimp only
  unfold History.fill
  by_cases ho : outcomesOf p.property calls = []
  · have hk : keptMedian p.property calls = 0.0 := by
      unfold keptMedian
      rw [ho]
      exact percentile_nil 0.5
    have hc : (if p.propertyCardinality = 0 then reportedCardinality p.property calls
        else p.propertyCardinality) = p.propertyCardinality := by
      split
      · rename_i h0
        unfold reportedCardinality
        rw [ho, h0]
        rfl
      · rfl
    rw [hh, if_pos ho, hk, if_pos (by decide), Heuristic.selectivity_eq, if_pos hp, withoutMedian, hc]
  · rw [hh, if_neg ho, Heuristic.selectivity_eq, hp]
    rfl

/-! ## Medians -/

theorem fraction_of_mem_outcomesOf {property : String} {calls : List Call} {o : FilterOutcome}
    (h : o ∈ outcomesOf property calls) : o.fraction.isFinite = true ∧ 0 ≤ val o.fraction := by
  obtain ⟨c, -, hc⟩ := List.mem_filterMap.1 (List.mem_filter.1 h).1
  unfold Call.filterOutcome? at hc
  split at hc
  · split at hc
    · rename_i hv
      cases hc
      have h0 := (le_iff_val_le val_zero.1 hv.1).1 hv.2.1
      rw [val_zero.2] at h0
      exact ⟨hv.1, h0⟩
    · cases hc
  · cases hc

theorem isFinite_of_mem_kept {property : String} {calls : List Call} {x : Float}
    (h : x ∈ ((outcomesOf property calls).map (·.fraction)).rtake maxSamples) :
    x.isFinite = true ∧ 0 ≤ val x := by
  obtain ⟨o, ho, rfl⟩ := List.mem_map.1 (List.mem_of_mem_drop h)
  exact fraction_of_mem_outcomesOf ho

theorem keptMedian_bounds (property : String) (calls : List Call) :
    (keptMedian property calls).isFinite = true ∧ 0 ≤ val (keptMedian property calls) := by
  unfold keptMedian
  rcases percentile_cases (((outcomesOf property calls).map (·.fraction)).rtake maxSamples) 0.5 with
    h | h
  · exact isFinite_of_mem_kept h
  · rw [h, val_zero.2]
    exact ⟨val_zero.1, le_refl _⟩

/-- The outcomes of one run are at most those of another, one by one, and come with the same numbers of
distinct values. -/
def AtMost : List FilterOutcome → List FilterOutcome → Prop :=
  List.Forall₂ fun o o' => o.fraction ≤ o'.fraction ∧ o.cardinality = o'.cardinality

variable {property : String} {calls calls' : List Call}

theorem reportedCardinality_congr (h : AtMost (outcomesOf property calls) (outcomesOf property calls')) :
    reportedCardinality property calls = reportedCardinality property calls' := by
  have hmap : (outcomesOf property calls).map (·.cardinality) =
      (outcomesOf property calls').map (·.cardinality) := by
    rw [← List.forall₂_eq_eq_eq, List.forall₂_map_left_iff, List.forall₂_map_right_iff]
    exact h.imp fun _ _ ho => ho.2
  unfold reportedCardinality
  rw [hmap]

/-- **The median follows the observations.** -/
theorem keptMedian_le (h : AtMost (outcomesOf property calls) (outcomesOf property calls')) :
    val (keptMedian property calls) ≤ val (keptMedian property calls') := by
  refine val_percentile_le (fun _ hx => (isFinite_of_mem_kept hx).1)
    (fun _ hx => (isFinite_of_mem_kept hx).1) ?_ _
  have hl := h.length_eq
  unfold List.rtake
  rw [List.length_map, List.length_map, hl]
  refine List.forall₂_drop _ ?_
  rw [List.forall₂_map_left_iff, List.forall₂_map_right_iff]
  rw [AtMost, List.forall₂_iff_zip] at h
  refine List.forall₂_iff_zip.2 ⟨h.1, fun {o o'} ho => ?_⟩
  have hm := List.of_mem_zip ho
  exact (le_iff_val_le (fraction_of_mem_outcomesOf hm.1).1 (fraction_of_mem_outcomesOf hm.2).1).1
    (h.2 ho).1

theorem withoutMedian_congr {p : FilterProfile}
    (h : AtMost (outcomesOf p.property calls) (outcomesOf p.property calls')) :
    withoutMedian p calls = withoutMedian p calls' := by
  unfold withoutMedian
  rw [reportedCardinality_congr h]

/-- The estimate without a median is defined. -/
theorem isNaN_withoutMedian (p : FilterProfile) (calls : List Call) :
    (withoutMedian p calls).isNaN = false := by
  have hr : Target.selectivity.InRange (withoutMedian p calls) :=
    (Heuristic.inRange_selectivity_iff _).2 (show (0.0 : Float).isNaN = false by decide)
  cases hn : (withoutMedian p calls).isNaN with
  | false => rfl
  | true => exact absurd hr (Target.not_inRange_of_isNaN hn)

/-! ## Estimates -/

/-- **When estimates follow the observations**: take two runs without a model, in which equally many
valid outcomes are reported for a property, those of the first at most those of the second and with the
same numbers of distinct values. For a profile that leaves the median open, the first run estimates at
most what the second does, unless only the second has a median, and the estimate that the first makes
without one is above it. -/
theorem selectivity_follows_observations_iff {settings settings' : EstimatorSettings}
    {p : FilterProfile} (ha : (afterCalls settings calls).active = none)
    (ha' : (afterCalls settings' calls').active = none)
    (h : AtMost (outcomesOf p.property calls) (outcomesOf p.property calls'))
    (hp : (p.pastMedian == 0.0) = true) :
    ((afterCalls settings calls).estimateSelectivity p).selectivity ≤
        ((afterCalls settings' calls').estimateSelectivity p).selectivity ↔
      ((keptMedian p.property calls == 0.0) = true → (keptMedian p.property calls' == 0.0) = false →
        withoutMedian p calls ≤ clamp minSelectivity 1.0 (keptMedian p.property calls')) := by
  obtain ⟨hf, h0⟩ := keptMedian_bounds p.property calls
  obtain ⟨hf', -⟩ := keptMedian_bounds p.property calls'
  have hle := keptMedian_le h
  rw [selectivity_without_model ha hp, selectivity_without_model ha' hp]
  cases hm : keptMedian p.property calls == 0.0 with
  | true =>
    cases hm' : keptMedian p.property calls' == 0.0 with
    | true =>
      have hn := isNaN_withoutMedian p calls'
      rw [if_pos rfl, if_pos rfl, withoutMedian_congr h]
      exact iff_of_true ((le_iff_extended hn hn).2 (le_refl _)) nofun
    | false => exact ⟨fun hest _ _ => hest, fun hest => hest rfl rfl⟩
  | false =>
    -- The first run has a median, and so has the second, for its median is no lower.
    have hpos : 0 < val (keptMedian p.property calls) := by
      refine lt_of_le_of_ne h0 fun hz => ?_
      rw [(beq_iff_val_eq hf val_zero.1).2 (hz.symm.trans val_zero.2.symm)] at hm
      cases hm
    have hm' : (keptMedian p.property calls' == 0.0) = false := by
      by_contra hz
      have hz := (beq_iff_val_eq hf' val_zero.1).1 (by simpa using hz)
      rw [val_zero.2] at hz
      exact (hpos.trans_le hle).ne' hz
    rw [hm', if_neg (by decide), if_neg (by decide)]
    refine iff_of_true ?_ nofun
    have hl : minSelectivity.isFinite = true := by decide
    have hh : (1.0 : Float).isFinite = true := by decide
    exact clamp_le_clamp hl hh ((le_iff_val_le hl hh).1 (by decide)) hf hf' hle

/-- Outcomes of filters on one property. -/
def heights (fractions : List Float) : List Call :=
  fractions.map fun fraction =>
    .event (.observeFilter { property := "height" } fraction 3 none none
      (Timestamp.ofParts 19783 3661 5000000))

/-- Two runs that differ in the last two outcomes, with an estimate in between. -/
theorem selectivity_follows_observations_iff_of_heights :
    let p : FilterProfile := { property := "height", corpusSize := 4 }
    let calls := heights [0.0, 0.25, 0.5]
    let calls' := heights [0.0] ++ Call.estimateSelectivity p :: heights [0.5, 0.75]
    ((afterCalls {} calls).active = none ∧ (afterCalls {} calls').active = none ∧
      AtMost (outcomesOf p.property calls) (outcomesOf p.property calls') ∧
      (p.pastMedian == 0.0) = true) ∧
    keptMedian p.property calls = 0.25 ∧
    ((afterCalls {} calls).estimateSelectivity p).selectivity ≤
      ((afterCalls {} calls').estimateSelectivity p).selectivity := by
  intro p calls calls'
  have ha : (afterCalls {} calls).active = none := rfl
  have ha' : (afterCalls {} calls').active = none := rfl
  have ho : outcomesOf p.property calls = [0.0, 0.25, 0.5].map fun fraction =>
      ⟨"height", fraction, 3, Timestamp.ofParts 19783 3661 5000000⟩ := by rfl
  have ho' : outcomesOf p.property calls' = [0.0, 0.5, 0.75].map fun fraction =>
      ⟨"height", fraction, 3, Timestamp.ofParts 19783 3661 5000000⟩ := by rfl
  have h : AtMost (outcomesOf p.property calls) (outcomesOf p.property calls') := by
    rw [ho, ho', AtMost, List.forall₂_map_left_iff, List.forall₂_map_right_iff]
    exact .cons ⟨by decide, rfl⟩ (.cons ⟨by decide, rfl⟩ (.cons ⟨by decide, rfl⟩ .nil))
  have hp : (p.pastMedian == 0.0) = true := by decide
  have hm : keptMedian p.property calls = 0.25 := by
    have hs : ascending [0.0, 0.25, 0.5] = [0.0, 0.25, 0.5] :=
      List.mergeSort_of_pairwise (by decide)
    unfold keptMedian
    rw [ho]
    show (ascending [0.0, 0.25, 0.5]).getD _ 0.0 = 0.25
    rw [hs]
    rfl
  refine ⟨⟨ha, ha', h, hp⟩, hm, (selectivity_follows_observations_iff ha ha' h hp).2 fun hz => ?_⟩
  rw [hm] at hz
  exact absurd hz (by decide)

/-- A run that only saw a filter pass nothing estimates more than one that saw it pass a tenth. -/
theorem selectivity_of_zero_median :
    let p : FilterProfile := { property := "height" }
    let calls := heights [0.0]
    let calls' := heights [0.1]
    ((afterCalls {} calls).active = none ∧ (afterCalls {} calls').active = none ∧
      AtMost (outcomesOf p.property calls) (outcomesOf p.property calls') ∧
      (p.pastMedian == 0.0) = true) ∧
    ¬ ((afterCalls {} calls).estimateSelectivity p).selectivity ≤
        ((afterCalls {} calls').estimateSelectivity p).selectivity := by
  intro p calls calls'
  have ho : outcomesOf p.property calls =
      [⟨"height", 0.0, 3, Timestamp.ofParts 19783 3661 5000000⟩] := by rfl
  have ho' : outcomesOf p.property calls' =
      [⟨"height", 0.1, 3, Timestamp.ofParts 19783 3661 5000000⟩] := by rfl
  refine ⟨⟨rfl, rfl, ?_, by decide⟩, by decide +kernel⟩
  rw [ho, ho']
  exact .cons ⟨by decide, rfl⟩ .nil

end Estimator

end QueryForecast
