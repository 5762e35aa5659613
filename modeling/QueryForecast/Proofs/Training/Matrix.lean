import QueryForecast.Proofs.Training.Fitting

/-!
# What a dataset keeps of its records

The columns of a dataset are the base features of its target and then every other name that a record
brings, in order of first appearance. A row is filled by looking up where each name stands, so it
holds every value that its record has, in the column of its name, and nothing else but zeros.

* `Schema.exists_getElem?_names` — a name of a schema has a column.
* `Query.baseValues` — the values of the base features of a target, which stand in front of every row.
* `Dataset.ofRecords_keeps_values` — the columns and the rows of any records.
-/

namespace QueryForecast

namespace Schema

theorem exists_getElem?_names {s : Schema} {name : String} (h : name ∈ s.names) :
    ∃ j : Nat, s.names[j]? = some name := by
  obtain ⟨j, hj, hn⟩ := List.getElem_of_mem h
  exact ⟨j, List.getElem?_eq_some_iff.2 ⟨hj, hn⟩⟩

end Schema

/-! ## Base features -/

namespace Query

/-- The values of the base features of a target. -/
def baseValues (q : Query) : Target → List Float
  | .cardinality => q.cardinalityValues none
  | .selectivity => (q.profile.getD {}).values

theorem length_baseValues (q : Query) (t : Target) :
    (q.baseValues t).length = t.baseFeatures.length := by
  cases t <;> rfl

/-- A vector has the values of its base features. -/
theorem zip_baseValues_subset (q : Query) (t : Target) :
    t.baseFeatures.zip (q.baseValues t) ⊆ (q.vector t none).entries := by
  cases t with
  | cardinality =>
    show _ ⊆ (q.cardinalityVector none).entries
    rw [entries_cardinalityVector]
    exact List.Subset.refl _
  | selectivity =>
    show _ ⊆ (q.profile.getD {}).vector.entries
    rw [FilterProfile.entries_vector]
    exact List.subset_append_left _ _

end Query

/-- A row has the values of the base features in front, when its schema has their names there. -/
theorem Schema.take_align {s : Schema} {t : Target} {others : List String}
    (hs : s.names = t.baseFeatures ++ others) (q : Query) :
    (s.align (q.vector t none)).take t.baseFeatures.length = q.baseValues t := by
  have hlength : (s.align (q.vector t none)).length = (t.baseFeatures ++ others).length := by
    rw [length_align, ← hs]
    rfl
  refine List.ext_getElem ?_ fun j hj hj' => ?_
  · rw [List.length_take, hlength, q.length_baseValues, List.length_append]
    omega
  · have hbase : j < t.baseFeatures.length := q.length_baseValues t ▸ hj'
    have hname : s.names[j]? = some t.baseFeatures[j] := by
      rw [hs, List.getElem?_append_left hbase, List.getElem?_eq_getElem hbase]
    have hentry : (t.baseFeatures[j], (q.baseValues t)[j]) ∈ (q.vector t none).entries := by
      apply q.zip_baseValues_subset t
      rw [← List.getElem_zip (h := by rw [List.length_zip]; omega)]
      exact List.getElem_mem _
    have hvalue := getElem?_align_of_mem hname hentry
    rw [List.getElem_take]
    exact (List.getElem?_eq_some_iff.1 hvalue).2

namespace Dataset

/-- **A dataset loses nothing of its records.** Any records make one. Its columns are the base
features of the target, followed by the other names of the records' vectors, each at its first
appearance; no name has two columns. There is one row for each record, with its outcome. A row holds
in each column the value that the record's vector has under the column's name, or zero if it has
none, and every value of the vector is in the row. In front stand the values of the base features. -/
theorem ofRecords_keeps_values (t : Target) (records : List (ExecutionRecord × Float)) :
    ∃ d, ofRecords t records = .ok d ∧
      d.schema.names = t.baseFeatures ++
        ((records.flatMap fun r => (r.1.query.vector t none).names).filter
          fun name => name ∉ t.baseFeatures).eraseDups ∧
      d.schema.names.Nodup ∧
      d.rows.length = records.length ∧
      d.outcomes = records.map (·.2) ∧
      ∀ (i : Nat) (record : ExecutionRecord) (outcome : Float),
        records[i]? = some (record, outcome) →
        ∃ row, d.rows[i]? = some row ∧ row.size = d.schema.names.length ∧
          (∀ (j : Nat) (name : String), d.schema.names[j]? = some name →
            row[j]? = some (((record.query.vector t none).get? name).getD 0.0)) ∧
          (∀ (name : String) (x : Float), (name, x) ∈ (record.query.vector t none).entries →
            ∃ j : Nat, d.schema.names[j]? = some name ∧ row[j]? = some x) ∧
          row.toList.take t.baseFeatures.length = record.query.baseValues t := by
  obtain ⟨s, hs, hc, hd⟩ := exists_ofRecords_eq t records
  obtain ⟨s', hs', hn⟩ := Schema.exists_ofVectors_eq t.baseFeatures (by cases t <;> decide)
    (by cases t <;> decide) (records.map fun r => r.1.query.vector t none)
  cases hs.symm.trans hs'
  rw [List.flatMap_map] at hn
  refine ⟨_, hd, hn, s.nodup, ?_, ?_, fun i record outcome hr => ?_⟩
  · simp [ofExamples]
  · simp [ofExamples, exampleOf]
  · have hrow : (ofExamples s (records.map (exampleOf t s))).rows[i]? =
        some (s.align (record.query.vector t none)).toArray := by
      simp [ofExamples, exampleOf, hr]
    refine ⟨_, hrow, ?_, fun j name hj => ?_, fun name x he => ?_, Schema.take_align hn _⟩
    · rw [List.size_toArray, Schema.length_align]
      rfl
    · have hj : s.names[j]? = some name := hj
      rw [List.getElem?_toArray, Schema.align_eq, List.getElem?_map, hj]
      rfl
    · obtain ⟨j, hj⟩ := Schema.exists_getElem?_names
        (hc _ (List.mem_of_getElem? hr) name (List.mem_map_of_mem he))
      refine ⟨j, hj, ?_⟩
      rw [List.getElem?_toArray]
      exact Schema.getElem?_align_of_mem hj he

/-- A profile with numbers and categories of its own. -/
def redProfile : FilterProfile where
  property := "color"
  operator := "="
  corpusSize := 1000
  pastMedian := 0.25
  hour := 14
  vectorNorm := 2.5

/-- The first of two records brings its numbers and two columns, in which the second one has nothing. -/
theorem ofRecords_keeps_values_of_redProfile :
    ∃ d first second,
      ofRecords .selectivity [(.ofSelectivity redProfile 0.25, 0.25), (.ofSelectivity {} 1.0, 1.0)] =
        .ok d ∧
      d.outcomes = [0.25, 1.0] ∧ d.rows[0]? = some first ∧ d.rows[1]? = some second ∧
      first.toList.take 11 = [0.0, 1000.0, 0.25, 0.0, 14.0, 0.0, 2.5, 0.0, 1.0, 0.0, 0.0] ∧
      ∃ j : Nat, d.schema.names[j]? = some "property_color" ∧ first[j]? = some 1.0 ∧
        second[j]? = some 0.0 := by
  obtain ⟨d, hd, -, -, -, houtcomes, hrows⟩ := ofRecords_keeps_values .selectivity
    [(.ofSelectivity redProfile 0.25, 0.25), (.ofSelectivity {} 1.0, 1.0)]
  obtain ⟨first, hfirst, -, -, hentries, hbase⟩ := hrows 0 _ _ rfl
  obtain ⟨second, hsecond, -, hvalues, -, -⟩ := hrows 1 _ _ rfl
  have hcolor : ("property_color", 1.0) ∈ redProfile.vector.entries :=
    List.mem_of_getElem? (i := 11) (by decide +kernel)
  obtain ⟨j, hj, hone⟩ := hentries "property_color" 1.0 hcolor
  have hzero := hvalues j "property_color" hj
  have hnone : (({} : FilterProfile).vector.get? "property_color") = none := by decide +kernel
  refine ⟨d, first, second, hd, houtcomes, hfirst, hsecond, ?_, j, hj, hone, ?_⟩
  · refine hbase.trans ?_
    decide +kernel
  · refine hzero.trans ?_
    show some ((({} : FilterProfile).vector.get? "property_color").getD 0.0) = some 0.0
    rw [hnone]
    rfl

end Dataset

end QueryForecast
