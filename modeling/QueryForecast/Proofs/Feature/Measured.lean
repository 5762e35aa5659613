import QueryForecast.Feature.Extraction
import QueryForecast.Proofs.Feature.Columns
import QueryForecast.Proofs.Numeric.Magnitude

/-!
# Which features are finite

Features that count something are finite, because counts are; those for row counts are all of this
kind. The features for selectivities also take over five numbers that were measured elsewhere, as they
are: with these, a vector is as finite as what was measured.

* `Query.isMeasured` — whether the numbers that a target takes over are finite.
* `Query.all_isFinite_vector` — the features of a query are finite exactly when these are.
-/

namespace QueryForecast

open Numeric Time

/-- A query whose lists fit into an address space of 64 bits. -/
structure Query.Addressable (q : Query) : Prop where
  filters : q.filters.length ≤ 2 ^ 64
  joins : q.joins.length ≤ 2 ^ 64
  aggregations : q.aggregations.length ≤ 2 ^ 64
  sortKeys : q.sortKeys.length ≤ 2 ^ 64

/-- The numbers of a profile that become features as they were measured. -/
def FilterProfile.measures (p : FilterProfile) : List Float :=
  [p.pastMedian, p.pastHigh, p.vectorNorm, p.cacheHitRate, p.latencyHigh]

/-- Whether the numbers that a target's features take over from a query are finite. -/
def Query.isMeasured (q : Query) : Target → Bool
  | .cardinality => true
  | .selectivity => (q.profile.getD {}).measures.all Float.isFinite

/-! ## Row counts -/

namespace Heuristic

theorem within_operatorSelectivity (operator : String) :
    Within 0 (operatorSelectivity operator) := by
  unfold operatorSelectivity
  split
  · exact within_one.of_abs_le (by decide +kernel) (by decide +kernel)
  · split
    · exact within_one.of_abs_le (by decide +kernel) (by decide +kernel)
    · split
      · exact within_one.of_abs_le (by decide +kernel) (by decide +kernel)
      · exact within_one

theorem isFinite_filterSelectivity (filters : List Filter) :
    (filterSelectivity filters).isFinite = true := by
  have hp : Within 0 (product (filters.map fun f => operatorSelectivity f.operator)) := by
    apply within_product
    intro x hx
    obtain ⟨f, -, rfl⟩ := List.mem_map.1 hx
    exact within_operatorSelectivity _
  have hm : minSelectivity.isFinite = true := by decide +kernel
  unfold filterSelectivity atLeast
  split
  · exact hm
  · split
    · exact hm
    · exact hp.finite

theorem isFinite_complexity {q : Query} (h : q.Addressable) : (complexity q).isFinite = true := by
  have three : Within 1 (1.5 : Float) := within_two.of_abs_le (by decide +kernel) (by decide +kernel)
  have half : Within 0 (0.5 : Float) := within_one.of_abs_le (by decide +kernel) (by decide +kernel)
  have f := (within_one.mul (within_ofNat h.filters) (by omega)).mono (k := 65) (by omega)
  have j := within_two.mul (within_ofNat h.joins) (by omega)
  have a := (three.mul (within_ofNat h.aggregations) (by omega)).mono (k := 66) (by omega)
  have s := (half.mul (within_ofNat h.sortKeys) (by omega)).mono (k := 67) (by omega)
  exact (((f.add j (by omega)).add a (by omega)).add s (by omega)).finite

end Heuristic

namespace Query

theorem weekdayFromMonday_lt (day : Int) : weekdayFromMonday day < 7 := by
  unfold weekdayFromMonday
  omega

/-- What is counted is finite. -/
theorem all_isFinite_cardinalityValues {q : Query} (h : q.Addressable) :
    (q.cardinalityValues none).all Float.isFinite = true := by
  have hour : (q.timestamp.map (·.hour)).getD 0 ≤ 2 ^ 64 := by
    cases q.timestamp with
    | none => decide
    | some t => exact (t.hour_lt.trans (by decide)).le
  have day : (q.timestamp.map fun t => weekdayFromMonday t.day).getD 0 ≤ 2 ^ 64 := by
    cases q.timestamp with
    | none => decide
    | some t => exact ((weekdayFromMonday_lt t.day).trans (by decide)).le
  have index : (if q.usesIndex then 1.0 else 0.0 : Float).isFinite = true := by
    split <;> decide
  unfold cardinalityValues
  simp only [List.all_cons, List.all_nil, Bool.and_true, Bool.and_eq_true]
  exact ⟨(within_ofNat h.filters).finite, (within_ofNat h.joins).finite,
    (within_ofNat h.aggregations).finite, (within_ofNat h.sortKeys).finite,
    Heuristic.isFinite_filterSelectivity _, (within_toFloat _).finite, (within_toFloat _).finite,
    (within_ofNat hour).finite, (within_ofNat day).finite, val_zero.1,
    Heuristic.isFinite_complexity h, index⟩

end Query

/-! ## Named values -/

theorem all_zip_snd {names : List String} {values : List Float}
    (h : values.length = names.length) (p : Float → Bool) :
    ((names.zip values).all fun e => p e.2) = values.all p := by
  have hs : (names.zip values).map Prod.snd = values := List.map_snd_zip h.le
  conv_rhs => rw [← hs, List.all_map]
  rfl

theorem map_fst_zip {names : List String} {values : List Float}
    (h : values.length = names.length) : (names.zip values).map (·.1) = names :=
  List.map_fst_zip h.ge

namespace FilterProfile

theorem propertyColumn_ne_operatorColumn (property operator : String) :
    propertyColumn property ≠ operatorColumn operator := by
  intro h
  have hl := congrArg String.toList h
  unfold propertyColumn operatorColumn at hl
  rw [String.toList_append, String.toList_append] at hl
  exact absurd (List.cons.inj hl).1 (by decide)

/-- The columns of a profile have different names. -/
theorem nodup_columns (p : FilterProfile) : (selectivityFeatures ++ p.categories).Nodup := by
  rw [List.nodup_append]
  refine ⟨by decide, ?_, ?_⟩
  · apply List.Nodup.filter
    rw [List.nodup_cons, List.mem_singleton]
    exact ⟨propertyColumn_ne_operatorColumn _ _, List.nodup_singleton _⟩
  · intro name hn other ho he
    have hc := (List.mem_filter.1 ho).2
    rw [← he, List.contains_iff_mem.2 hn] at hc
    cases hc

theorem entries_vector (p : FilterProfile) :
    p.vector.entries = selectivityFeatures.zip p.values ++ p.categories.map fun name => (name, 1.0) := by
  apply FeatureVector.entries_ofList
  rw [List.map_append, map_fst_zip rfl, List.map_map]
  have hm : p.categories.map ((fun e : String × Float => e.1) ∘ fun name => (name, 1.0)) =
      p.categories := List.map_id _
  rw [hm]
  exact p.nodup_columns

/-- The numbers of a profile that are counts are finite. -/
theorem all_isFinite_values (p : FilterProfile) :
    p.values.all Float.isFinite = p.measures.all Float.isFinite := by
  unfold values measures
  simp only [List.all_cons, List.all_nil, Bool.and_true, (within_toFloat _).finite,
    (within_toFloat32 _).finite, Bool.true_and]

theorem all_isFinite_vector (p : FilterProfile) :
    (p.vector.entries.all fun e => e.2.isFinite) = p.measures.all Float.isFinite := by
  have hone : (p.categories.map fun name => (name, (1.0 : Float))).all (fun e => e.2.isFinite) =
      true := by
    rw [List.all_eq_true]
    intro e he
    obtain ⟨name, -, rfl⟩ := List.mem_map.1 he
    exact within_one.finite
  rw [entries_vector, List.all_append, hone, Bool.and_true, all_zip_snd rfl, all_isFinite_values]

end FilterProfile

theorem Query.entries_cardinalityVector (q : Query) (known : Option Correlations) :
    (q.cardinalityVector known).entries = cardinalityFeatures.zip (q.cardinalityValues known) := by
  apply FeatureVector.entries_ofList
  rw [map_fst_zip rfl]
  decide

/-- **The features of a query are finite exactly when the numbers that they take over are.** -/
theorem Query.all_isFinite_vector {q : Query} {t : Target} (h : t = .cardinality → q.Addressable) :
    ((q.vector t none).entries.all fun e => e.2.isFinite) = q.isMeasured t := by
  cases t with
  | cardinality =>
    show ((q.cardinalityVector none).entries.all fun e => e.2.isFinite) = true
    rw [entries_cardinalityVector, all_zip_snd rfl]
    exact all_isFinite_cardinalityValues (h rfl)
  | selectivity => exact FilterProfile.all_isFinite_vector _

end QueryForecast
