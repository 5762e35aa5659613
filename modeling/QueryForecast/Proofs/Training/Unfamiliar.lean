import QueryForecast.Proofs.Feature.Categories
import QueryForecast.Proofs.Training.Served

/-!
# Categories that a run has not seen

The property and the operator of a filter become columns of their own, but only those that a usable
record has are columns of the model. A category that no record has is dropped when a vector is aligned,
and so are all others like it, whatever they are called: no name of a category is the column of a
numeric feature, of the other kind of category, or of a category that was seen.

* `FilterProfile.get?_vector` — the value of a name in the vector of a profile.
* `TrainingPlan.Unfamiliar` — a property that no usable record has, or that has no column.
* `TrainingPlan.unfamiliar_categories_are_interchangeable` — a model gives them the same estimates.
-/

namespace QueryForecast

open Time

namespace FilterProfile

theorem mem_names_vector {p : FilterProfile} {name : String} :
    name ∈ p.vector.names ↔ name ∈ selectivityFeatures ∨ name ∈ p.categories := by
  rw [names_vector, List.mem_append]

/-- **The value of a name in the vector of a profile.** -/
theorem get?_vector (p : FilterProfile) (name : String) :
    p.vector.get? name = ((selectivityFeatures.zip p.values).lookup name).or
      (if name ∈ p.categories then some 1.0 else none) := by
  have hc (names : List String) : (names.map fun name => (name, (1.0 : Float))).lookup name =
      if name ∈ names then some 1.0 else none := by
    induction names with
    | nil => rfl
    | cons first rest ih =>
      rw [List.map_cons, List.lookup_cons, ih]
      by_cases h : name = first
      · simp [h]
      · simp [h, beq_false_of_ne h]
  unfold FeatureVector.get?
  rw [entries_vector, List.lookup_append, hc]

/-- Profiles with the same numbers differ in the columns of their categories only. -/
theorem get?_vector_congr {p q : FilterProfile} {name : String} (hv : p.values = q.values)
    (hc : name ∈ p.categories ↔ name ∈ q.categories) : p.vector.get? name = q.vector.get? name := by
  rw [get?_vector, get?_vector, hv]
  simp only [hc]

end FilterProfile

namespace TrainingPlan

variable {plan : TrainingPlan} {records : List ExecutionRecord} {now : Timestamp} {model : Model}
  {report : TrainingReport} {s : Schema} {e : Ensemble}

/-- The profiles of the usable records; a record without one counts as having the empty one. -/
def profiles (p : TrainingPlan) (records : List ExecutionRecord) : List FilterProfile :=
  (p.usable records).map fun r => r.1.query.profile.getD {}

/-- No usable record has the property, or it is the one whose column would have the name of a numeric
feature. -/
def Unfamiliar (p : TrainingPlan) (records : List ExecutionRecord) (property : String) : Prop :=
  property ∉ (p.profiles records).map (·.property) ∨ property = "cardinality"

/-- The columns of a selectivity model beyond the numeric ones are those of the categories that it was
trained on. -/
theorem Learned.mem_names (h : plan.Learned records model s e) (ht : plan.target = .selectivity)
    {name : String} : name ∈ s.names ↔ name ∈ selectivityFeatures ∨
      ∃ p ∈ plan.profiles records, name ∈ p.categories := by
  have hnames : ∀ r : ExecutionRecord × Float, name ∈ (r.1.query.vector plan.target none).names ↔
      name ∈ selectivityFeatures ∨ name ∈ (r.1.query.profile.getD {}).categories := by
    intro r
    rw [ht]
    exact FilterProfile.mem_names_vector
  rw [h.names, ht]
  unfold profiles
  simp only [List.mem_map, exists_exists_and_eq_and]
  constructor
  · rintro (hb | ⟨r, hr, hn⟩)
    · exact .inl hb
    · rw [← ht] at hn
      exact ((hnames r).1 hn).imp_right fun hc => ⟨r, hr, hc⟩
  · rintro (hb | ⟨r, hr, hc⟩)
    · exact .inl hb
    · rw [← ht]
      exact .inr ⟨r, hr, (hnames r).2 (.inr hc)⟩

/-- An unfamiliar property has no column. -/
theorem Learned.ne_propertyColumn (h : plan.Learned records model s e)
    (ht : plan.target = .selectivity) {name property : String} (hn : name ∈ s.names)
    (hb : name ∉ selectivityFeatures) (hp : plan.Unfamiliar records property) :
    name ≠ propertyColumn property := by
  rintro rfl
  rcases hp with hp | rfl
  · obtain ⟨p, hm, hc⟩ := ((h.mem_names ht).1 hn).resolve_left hb
    rcases (FilterProfile.mem_categories.1 hc).1 with he | he
    · exact hp (List.mem_map.2 ⟨p, hm, (propertyColumn_injective he).symm⟩)
    · exact FilterProfile.propertyColumn_ne_operatorColumn _ _ he
  · exact hb (by decide)

/-- An operator that no usable record has has no column. -/
theorem Learned.ne_operatorColumn (h : plan.Learned records model s e)
    (ht : plan.target = .selectivity) {name operator : String} (hn : name ∈ s.names)
    (hb : name ∉ selectivityFeatures)
    (ho : operator ∉ (plan.profiles records).map (·.operator)) : name ≠ operatorColumn operator := by
  rintro rfl
  obtain ⟨p, hm, hc⟩ := ((h.mem_names ht).1 hn).resolve_left hb
  rcases (FilterProfile.mem_categories.1 hc).1 with he | he
  · exact FilterProfile.propertyColumn_ne_operatorColumn _ _ he.symm
  · exact ho (List.mem_map.2 ⟨p, hm, (operatorColumn_injective he).symm⟩)

/-- **Categories that a run has not seen are interchangeable**: the model gives two profiles the same
estimate that differ in unfamiliar properties only, or in operators that no usable record has. -/
theorem unfamiliar_categories_are_interchangeable (ht : plan.target = .selectivity)
    (h : plan.train records now = .ok (model, report)) (p : FilterProfile) :
    (∀ a b : String, plan.Unfamiliar records a → plan.Unfamiliar records b →
      model.estimate { p with property := a }.vector =
        model.estimate { p with property := b }.vector) ∧
    ∀ a b : String, a ∉ (plan.profiles records).map (·.operator) →
      b ∉ (plan.profiles records).map (·.operator) →
      model.estimate { p with operator := a }.vector =
        model.estimate { p with operator := b }.vector := by
  obtain ⟨s, e, hl⟩ := learned_of_train h
  constructor
  · intro a b ha hb
    apply hl.estimate_congr
    intro name hn
    refine FilterProfile.get?_vector_congr (by rfl) ?_
    rw [FilterProfile.mem_categories, FilterProfile.mem_categories]
    apply and_congr_left
    intro hf
    simp [hl.ne_propertyColumn ht hn hf ha, hl.ne_propertyColumn ht hn hf hb]
  · intro a b ha hb
    apply hl.estimate_congr
    intro name hn
    refine FilterProfile.get?_vector_congr (by rfl) ?_
    rw [FilterProfile.mem_categories, FilterProfile.mem_categories]
    apply and_congr_left
    intro hf
    simp [hl.ne_operatorColumn ht hn hf ha, hl.ne_operatorColumn ht hn hf hb]

/-- A plan for selectivities that trains on any two records. -/
def filterPlan : TrainingPlan where
  minRecords := 2
  heldOutFraction := 0.5
  settings := { rounds := 2, rowFraction := 1.0, columnFraction := 1.0 }

/-- Four filters, one of them without a profile. -/
def categorizedRecords : List ExecutionRecord :=
  [.ofSelectivity { property := "color", operator := "=" } 0.5,
    .ofSelectivity { property := "price", operator := "<" } 0.1,
    { selectivity := some 0.9 }, .ofSelectivity { property := "color", operator := "<" } 0.2]

/-- A property that was not seen and one whose column would be a numeric feature; and operators that
are spelled like columns. -/
theorem unfamiliar_categories_are_interchangeable_of_four_records :
    ∃ model report,
      filterPlan.train categorizedRecords (.ofParts 19783 0 0) = .ok (model, report) ∧
      (filterPlan.profiles categorizedRecords).map (·.property) =
        ["color", "price", "unknown", "color"] ∧
      (∀ p : FilterProfile, model.estimate { p with property := "size" }.vector =
        model.estimate { p with property := "cardinality" }.vector) ∧
      ∀ p : FilterProfile, model.estimate { p with operator := "property_color" }.vector =
        model.estimate { p with operator := "operator_=" }.vector := by
  obtain ⟨model, report, h⟩ : ∃ model report,
      filterPlan.train categorizedRecords (.ofParts 19783 0 0) = .ok (model, report) :=
    exists_train_eq (by decide +kernel) (by decide +kernel) (by intro hc; cases hc)
      (by decide +kernel) _
  have hproperties : (filterPlan.profiles categorizedRecords).map (·.property) =
      ["color", "price", "unknown", "color"] := by decide +kernel
  have hoperators : (filterPlan.profiles categorizedRecords).map (·.operator) =
      ["=", "<", "unknown", "<"] := by decide +kernel
  refine ⟨model, report, h, hproperties, fun p => ?_, fun p => ?_⟩
  · apply (unfamiliar_categories_are_interchangeable rfl h p).1
    · left
      rw [hproperties]
      decide
    · right
      rfl
  · apply (unfamiliar_categories_are_interchangeable rfl h p).2
    · rw [hoperators]
      decide
    · rw [hoperators]
      decide

end TrainingPlan

end QueryForecast
