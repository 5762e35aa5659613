import QueryForecast.Proofs.Feature.Measured

/-!
# The columns of categories

The property and the operator of a filter become columns whose names are made of a prefix and the
category, in one list with the numeric features. Only one category comes out with the name of a numeric
feature, the property `cardinality`, and it has no column. So a category never takes the place of a
number, and the names of a vector tell which property and which operator it is of.

* `propertyColumn_injective`, `operatorColumn_injective` — categories of one kind have different columns.
* `propertyColumn_mem_iff`, `operatorColumn_not_mem` — which columns have the name of a numeric feature.
* `FilterProfile.categories_eq` — the columns of a profile's categories.
* `FilterProfile.categories_stand_apart` — the vector of a profile, and what its names tell.
-/

namespace QueryForecast

/-! ## Names with a prefix -/

theorem append_injective {kind a b : String} (h : kind ++ a = kind ++ b) : a = b := by
  have hl := congrArg String.toList h
  rw [String.toList_append, String.toList_append] at hl
  exact String.toList_inj.1 (List.append_cancel_left hl)

theorem propertyColumn_injective {a b : String} (h : propertyColumn a = propertyColumn b) : a = b :=
  append_injective h

theorem operatorColumn_injective {a b : String} (h : operatorColumn a = operatorColumn b) : a = b :=
  append_injective h

theorem isPrefix_append (kind category : String) : kind.toList <+: (kind ++ category).toList := by
  rw [String.toList_append]
  exact List.prefix_append _ _

/-- **One property has the column of a numeric feature.** -/
theorem propertyColumn_mem_iff {property : String} :
    propertyColumn property ∈ selectivityFeatures ↔ property = "cardinality" := by
  have hone : ∀ name ∈ selectivityFeatures, "property_".toList <+: name.toList →
      name = propertyColumn "cardinality" := by decide
  constructor
  · intro h
    exact propertyColumn_injective (hone _ h (isPrefix_append _ _))
  · rintro rfl
    decide

/-- No operator has the column of a numeric feature. -/
theorem operatorColumn_not_mem (operator : String) : operatorColumn operator ∉ selectivityFeatures := by
  have hnone : ∀ name ∈ selectivityFeatures, ¬ "operator_".toList <+: name.toList := by decide
  intro h
  exact hnone _ h (isPrefix_append _ _)

namespace FilterProfile

theorem mem_categories {p : FilterProfile} {name : String} :
    name ∈ p.categories ↔ (name = propertyColumn p.property ∨ name = operatorColumn p.operator) ∧
      name ∉ selectivityFeatures := by
  simp [categories]

/-- The categories of a profile have their columns, but for the one property. -/
theorem categories_eq (p : FilterProfile) : p.categories =
    (if p.property = "cardinality" then [] else [propertyColumn p.property]) ++
      [operatorColumn p.operator] := by
  have hop : [operatorColumn p.operator].filter (!selectivityFeatures.contains ·) =
      [operatorColumn p.operator] :=
    List.filter_eq_self.2 (by simp [operatorColumn_not_mem])
  unfold categories
  by_cases h : p.property = "cardinality"
  · have hprop := propertyColumn_mem_iff.2 h
    rw [List.filter_cons_of_neg (by simpa using hprop), hop, if_pos h]
    rfl
  · have hprop := mt propertyColumn_mem_iff.1 h
    rw [List.filter_cons_of_pos (by simpa using hprop), hop, if_neg h]
    rfl

theorem names_vector (p : FilterProfile) : p.vector.names = selectivityFeatures ++ p.categories := by
  unfold FeatureVector.names
  rw [entries_vector, List.map_append, map_fst_zip rfl, List.map_map]
  exact congrArg (selectivityFeatures ++ ·) (List.map_id _)

/-- Profiles whose categories have the same columns have the same categories. -/
theorem eq_of_categories_eq {p q : FilterProfile} (h : p.categories = q.categories) :
    p.property = q.property ∧ p.operator = q.operator := by
  rw [categories_eq, categories_eq] at h
  obtain ⟨hprops, hops⟩ := List.append_inj' h rfl
  refine ⟨?_, operatorColumn_injective (List.singleton_inj.1 hops)⟩
  by_cases hp : p.property = "cardinality"
  · by_cases hq : q.property = "cardinality"
    · rw [hp, hq]
    · rw [if_pos hp, if_neg hq] at hprops
      cases hprops
  · by_cases hq : q.property = "cardinality"
    · rw [if_neg hp, if_pos hq] at hprops
      cases hprops
    · rw [if_neg hp, if_neg hq] at hprops
      exact propertyColumn_injective (List.singleton_inj.1 hprops)

/-- **Categories stand apart from numbers and from each other.** The names of a vector differ. First
come the numbers of the profile under their names, then the column of its property, but for the one
property whose column would have the name of a number, and last the column of its operator. So profiles
with different properties or different operators have vectors with different names. -/
theorem categories_stand_apart (p : FilterProfile) :
    p.vector.names.Nodup ∧
    p.vector.names.take 11 = selectivityFeatures ∧
    p.vector.entries =
      [("property_cardinality", p.propertyCardinality.toFloat),
        ("corpus_size", p.corpusSize.toFloat),
        ("historical_selectivity_p50", p.pastMedian),
        ("historical_selectivity_p95", p.pastHigh),
        ("time_of_day_hour", p.hour.toFloat),
        ("day_of_week", p.weekday.toFloat),
        ("query_vector_norm", p.vectorNorm),
        ("vector_dimensions", p.dimensions.toFloat),
        ("filter_complexity", p.complexity.toFloat),
        ("cache_hit_rate_recent", p.cacheHitRate),
        ("average_query_latency_p95", p.latencyHigh)] ++
      (if p.property = "cardinality" then [] else [("property_" ++ p.property, 1.0)]) ++
      [("operator_" ++ p.operator, 1.0)] ∧
    ∀ q : FilterProfile, p.property ≠ q.property ∨ p.operator ≠ q.operator →
      p.vector.names ≠ q.vector.names := by
  refine ⟨p.vector.nodup, ?_, ?_, fun q hne he => ?_⟩
  · rw [names_vector]
    rfl
  · rw [entries_vector, categories_eq]
    split
    · rfl
    · rfl
  · rw [names_vector, names_vector] at he
    obtain ⟨hp, ho⟩ := eq_of_categories_eq (List.append_cancel_left he)
    exact hne.elim (fun h => h hp) (fun h => h ho)

/-- The property without a column beside another one, and operators that are spelled like columns. -/
theorem categories_stand_apart_of_cardinality :
    ({ property := "cardinality" } : FilterProfile).vector.names ≠
      ({ property := "color" } : FilterProfile).vector.names ∧
    ({ operator := "property_color" } : FilterProfile).vector.names ≠
      ({ operator := "operator_=" } : FilterProfile).vector.names :=
  ⟨(categories_stand_apart _).2.2.2 _ (.inl (by decide)),
    (categories_stand_apart _).2.2.2 _ (.inr (by decide))⟩

end FilterProfile

end QueryForecast
