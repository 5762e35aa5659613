import QueryForecast.Proofs.Model.Resaved
import QueryForecast.Proofs.Numeric.Totals
import QueryForecast.Proofs.Serving.Total

/-!
# The range of confidence

The confidence of an estimate is the reciprocal of one more than the mean absolute error of the model, or
a constant. A mean of absolute values is never negative, and then the reciprocal is at most one. But the
error is read from the artifact of a model like any other number, so it may be negative. The reciprocal
passes one exactly when one more than the error is from zero on and below one.

* `Quality.confidence_bounds`, `Quality.confidence_compute` — the confidence of errors that are finite, and
  of those that were measured.
* `Estimator.confidence_of_parse` — where the confidence of an estimate comes from.
* `Estimator.confidence_le_one_iff` — its range, whatever artifact was read.
-/

namespace QueryForecast

open Numeric

/-! ## Bounds -/

namespace Numeric

variable {bound x : Float}

theorem le_atLeast (hb : bound.isNaN = false) : bound ≤ atLeast bound x := by
  unfold atLeast
  have hrefl : bound ≤ bound := (le_iff_extended hb hb).2 (le_refl _)
  split
  · exact hrefl
  · rename_i hx
    split
    · exact hrefl
    · rename_i hlt
      exact defined_le_of_not_lt (by simpa using hx) hb hlt

/-- A bound that is within a limit leaves a defined number on its side of the limit. -/
theorem atLeast_le_iff {limit : Float} (hx : x.isNaN = false) (h : bound ≤ limit) :
    atLeast bound x ≤ limit ↔ x ≤ limit := by
  unfold atLeast
  rw [hx, if_neg Bool.false_ne_true]
  split
  · rename_i hlt
    exact iff_of_true h (float_le_trans (le_of_float_lt hlt) h)
  · rfl

end Numeric

/-! ## Errors -/

namespace Quality

variable {q : Quality}

/-- **The confidence of a finite error** is at least 0.01. It is at most one unless one more than the
error is from zero on and below one. -/
theorem confidence_bounds (h : q.mae.isFinite) :
    0.01 ≤ q.confidence ∧
      (q.confidence ≤ 1.0 ↔ ¬ (0.0 ≤ 1.0 + q.mae ∧ 1.0 + q.mae < 1.0)) := by
  have hs := isNaN_finite_add near_one.finite (isNaN_of_isFinite h)
  obtain ⟨hn, hle⟩ := one_div_le_one_iff hs (one_add_eq_zero h)
  exact ⟨le_atLeast (by decide), (atLeast_le_iff hn (by decide)).trans hle⟩

/-- An error that is not negative, or not defined, keeps the confidence within its range. -/
theorem confidence_mem_of_zero_le (h : q.mae.isNaN = false → 0.0 ≤ q.mae) :
    0.01 ≤ q.confidence ∧ q.confidence ≤ 1.0 := by
  have hbound : (0.01 : Float) ≤ 1.0 := by decide
  refine ⟨le_atLeast (isNaN_of_le hbound).1, ?_⟩
  unfold confidence
  cases hq : (1.0 / (1.0 + q.mae)).isNaN with
  | true =>
    unfold atLeast
    rw [hq, if_pos rfl]
    exact hbound
  | false =>
    have hs := (isNaN_div_eq_false hq).2
    have hone : 1.0 ≤ 1.0 + q.mae :=
      (le_add_of_zero_le (by decide) (h (isNaN_add_eq_false hs).2)).1
    have hpos (hf : (1.0 + q.mae).isFinite = true) (h0 : val (1.0 + q.mae) = 0) : 1.0 + q.mae = 0.0 := by
      rw [le_iff_val_le near_one.finite hf, near_one.val_eq, h0] at hone
      exact absurd hone (by norm_num)
    refine (atLeast_le_iff hq hbound).2 ((one_div_le_one_iff hs hpos).2.2 fun hlt => ?_)
    exact not_le_of_float_lt hs (isNaN_of_le hone).1 hlt.2 hone

/-- **The mean absolute error of predictions is not negative**, unless it is not defined. -/
theorem zero_le_mae_compute (predictions targets : List Float) :
    (compute predictions targets).mae.isNaN = false → 0.0 ≤ (compute predictions targets).mae := by
  unfold compute
  dsimp only
  split
  · exact fun _ => by decide
  · rename_i hne
    dsimp only
    intro hd
    have hs := (isNaN_div_eq_false hd).1
    refine zero_le_div (zero_le_sum (fun x hx hn => ?_) hs).1 ?_ hd
    · obtain ⟨pair, -, rfl⟩ := List.mem_map.1 hx
      exact zero_le_abs ((isNaN_abs _).symm.trans hn)
    · exact zero_lt_ofNat (List.length_pos_iff.2 (by simpa using hne))

/-- **Errors that were measured keep the confidence within its range.** -/
theorem confidence_compute (predictions targets : List Float) :
    0.01 ≤ (compute predictions targets).confidence ∧ (compute predictions targets).confidence ≤ 1.0 :=
  confidence_mem_of_zero_le (zero_le_mae_compute predictions targets)

end Quality

/-! ## Estimates -/

namespace Estimator

variable {text : String} {m : Model} {e : Estimator}

/-- **Where the confidence of an estimate comes from**, when a model that was read is active. -/
theorem confidence_of_parse (h : Model.parse text = .ok m) (ha : e.active = some m)
    (p : FilterProfile) :
    (e.estimateSelectivity p).confidence =
      if m.target = .selectivity then (m.quality.map Quality.confidence).getD fallbackConfidence
      else fallbackConfidence := by
  unfold estimateSelectivity
  dsimp only
  by_cases ht : m.target = .selectivity
  · obtain ⟨schema, ensemble, hs⟩ := Model.servable_of_parse h
    obtain ⟨y, hy⟩ := modelSelectivity?_of_active ha ht hs (e.history.fill p)
    rw [hy, if_pos ht]
    rfl
  · have hnone : e.modelSelectivity? (e.history.fill p) = none := by
      unfold modelSelectivity? activeFor?
      rw [ha, Option.filter_some, if_neg (by simpa using ht)]
      rfl
    rw [hnone, if_neg ht]

/-- **The range of confidence**: whatever artifact a model was read from, whatever was observed and
whatever is asked, the confidence is at least 0.01. It is at most one, unless the model is one for
selectivities with an error such that one more than it is from zero on and below one. That takes an error
below zero. -/
theorem confidence_le_one_iff (h : Model.parse text = .ok m) (ha : e.active = some m)
    (p : FilterProfile) :
    let confidence := (e.estimateSelectivity p).confidence
    0.01 ≤ confidence ∧
      (confidence ≤ 1.0 ↔ ∀ q, m.quality = some q → m.target = .selectivity →
        ¬ (0.0 ≤ 1.0 + q.mae ∧ 1.0 + q.mae < 1.0)) ∧
      ((∀ q, m.quality = some q → 0.0 ≤ q.mae) → confidence ≤ 1.0) := by
  intro confidence
  have hfallback : 0.01 ≤ fallbackConfidence ∧ fallbackConfidence ≤ 1.0 := by decide
  have hc : confidence = _ := confidence_of_parse h ha p
  rw [hc]
  by_cases ht : m.target = .selectivity
  · rw [if_pos ht]
    cases hq : m.quality with
    | none =>
      refine ⟨hfallback.1, iff_of_true hfallback.2 ?_, fun _ => hfallback.2⟩
      exact fun q hq' => nomatch hq'
    | some q =>
      obtain ⟨hl, hu⟩ := q.confidence_bounds ((Model.storable_of_parse h).1.quality q hq).mae
      refine ⟨hl, hu.trans ⟨?_, ?_⟩, fun h0 => ?_⟩
      · rintro hn q' hq' -
        rwa [← Option.some.inj hq']
      · exact fun hall => hall q rfl ht
      · exact (Quality.confidence_mem_of_zero_le fun _ => h0 q rfl).2
  · rw [if_neg ht]
    exact ⟨hfallback.1, iff_of_true hfallback.2 fun _ _ ht' => absurd ht' ht, fun _ => hfallback.2⟩

/-- An artifact for selectivities with a given mean absolute error, and one leaf. -/
def artifactWithError (mae : String) : String :=
  "\x7b\"format_version\":1,\"target\":\"selectivity\",\"schema\":[\"a\"],\"trained\":true," ++
    "\"metrics\":[" ++ mae ++ ",0.5,0.0,1],\"booster\":[0.5,1,[[[[\"leaf\",-0.25]]]],[2.0]]\x7d"

/-- A new estimator with a model. -/
def newWith (m : Model) : Estimator :=
  { start {} with active := some m }

theorem confidence_le_one_iff_of_quarter :
    ∃ m, Model.parse (artifactWithError "0.25") = .ok m ∧
      m.quality.map (·.mae) = some 0.25 ∧
      ∀ p, 0.01 ≤ ((newWith m).estimateSelectivity p).confidence ∧
        ((newWith m).estimateSelectivity p).confidence ≤ 1.0 := by
  have hq : (Model.parse (artifactWithError "0.25")).toOption.map (·.quality.map (·.mae)) =
      some (some 0.25) := by
    decide +kernel
  cases hm : Model.parse (artifactWithError "0.25") with
  | error fault =>
    rw [hm] at hq
    cases hq
  | ok m =>
    rw [hm] at hq
    have hq : m.quality.map (·.mae) = some 0.25 := Option.some.inj hq
    refine ⟨m, rfl, hq, fun p => ?_⟩
    obtain ⟨hl, -, hu⟩ := confidence_le_one_iff hm (e := newWith m) rfl p
    refine ⟨hl, hu fun q hq' => ?_⟩
    rw [hq', Option.map_some, Option.some.injEq] at hq
    rw [hq]
    decide

/-- An error of minus one half doubles the confidence. -/
theorem confidence_of_negative_error :
    ∃ m, Model.parse (artifactWithError "-0.5") = .ok m ∧
      ((newWith m).estimateSelectivity {}).confidence = 2.0 ∧
      ¬ ((newWith m).estimateSelectivity {}).confidence ≤ 1.0 := by
  have hc : (Model.parse (artifactWithError "-0.5")).toOption.map (fun m =>
      ((newWith m).estimateSelectivity {}).confidence) = some 2.0 := by
    decide +kernel
  cases hm : Model.parse (artifactWithError "-0.5") with
  | error fault =>
    rw [hm] at hc
    cases hc
  | ok m =>
    rw [hm] at hc
    have hc : ((newWith m).estimateSelectivity {}).confidence = 2.0 := Option.some.inj hc
    exact ⟨m, rfl, hc, by rw [hc]; decide⟩

end Estimator

end QueryForecast
