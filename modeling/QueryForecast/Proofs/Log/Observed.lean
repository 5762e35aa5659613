import QueryForecast.Log.Line
import QueryForecast.Proofs.Log.Codec
import QueryForecast.Serving.Estimator

/-!
# Which observed row counts are usable

A query that was observed while serving is written with those parts that it has, and a log line needs
statistics of the table. So an observation is usable again exactly when its query came with them.
-/

namespace QueryForecast

open Json Time

namespace ExecutionRecord

variable {q : Query} {rows : Float}

/-- Of what a target needs, only the statistics of the table may be missing. -/
theorem has_entries_ofCardinality (q : Query) (rows : Float) {name : String}
    (h : name ∈ Target.requiredFields .cardinality) :
    (ofCardinality q rows).entries.has name = (name != "table_stats" || q.tableStats.isSome) := by
  unfold entries Query.toEntries ofCardinality
  simp only [Entries.has_append, has_optionalEntry]
  simp only [Target.requiredFields, List.mem_cons, List.not_mem_nil, or_false] at h
  rcases h with rfl | rfl | rfl | rfl | rfl
  · rfl
  · rfl
  · rfl
  · cases q.tableStats.isSome <;> rfl
  · simp

theorem missingField?_ofCardinality (q : Query) (rows : Float) :
    missingField? .cardinality (ofCardinality q rows).printed =
      if q.tableStats.isSome then none else some (.missingField "table_stats") := by
  have hp : ∀ name ∈ Target.requiredFields .cardinality,
      (!(ofCardinality q rows).printed.has name) =
        (name == "table_stats" && !q.tableStats.isSome) := by
    intro name hm
    rw [has_printed, has_entries_ofCardinality q rows hm, Bool.not_or, bne, Bool.not_not]
  unfold missingField?
  rw [← List.head?_filter, List.filter_congr hp]
  cases q.tableStats.isSome <;> rfl

theorem partFault?_ofCardinality (h : q.tableStats.isSome = true) :
    partFault? .cardinality (ofCardinality q rows).printed = none := by
  obtain ⟨stats, hs⟩ := Option.isSome_iff_exists.1 h
  have hm : ("table_stats", stats.toJson) ∈ (ofCardinality q rows).entries :=
    mem_entries.2 (.inl (Query.mem_toEntries.2 (by simp [ofCardinality, hs])))
  obtain ⟨es, he, hr, hd⟩ := stats.exists_reparsed_eq
  unfold partFault?
  dsimp only
  rw [get?_printed hm, he]
  simp [hr, hd]

theorem isFinite_of_accepts {t : Target} (h : t.accepts rows = true) : rows.isFinite = true := by
  unfold Target.accepts Target.outcomeFault? at h
  split at h
  · cases h
  · rename_i hf
    exact Decidable.not_not.1 hf

theorem outcome_eq_ok {r : ExecutionRecord} {t : Target} {y : Float} (h : r.observed? t = some y)
    (ha : t.accepts y = true) : r.outcome t = .ok y := by
  have hn : t.outcomeFault? y = none := Option.isNone_iff_eq_none.1 ha
  unfold outcome
  rw [h]
  dsimp only
  rw [hn]

/-- A record is usable again when what the target needs is there, and its outcome is valid. -/
theorem ofLogValue_reparsed_eq {r : ExecutionRecord} {t : Target} {y : Float}
    (hfields : missingField? t r.printed = none) (hparts : partFault? t r.printed = none)
    (hx : r.FiniteOutcomes) (ht : ∀ t ∈ r.query.timestamp, (Timestamp.parse? t.text).isSome = true)
    (ho : r.observed? t = some y) (ha : t.accepts y = true) :
    ofLogValue t (reparsed r.toJson) = .ok (r.returned reparsed) := by
  have hj : ofJson (.obj r.printed) = .ok (r.returned reparsed) := ofJson_reordered .reparsed hx ht
  have hr : (r.returned reparsed).observed? t = some y := by
    cases t <;> exact ho
  rw [reparsed_toJson]
  unfold ofLogValue
  dsimp only
  rw [hfields, Option.orElse_none, hparts]
  dsimp only
  rw [hj]
  dsimp only
  rw [outcome_eq_ok hr ha]

/-- **The record of a row count is not usable again when its query came without statistics of the
table.** -/
theorem ofLogValue_reparsed_of_isNone (hs : q.tableStats.isNone = true) :
    ofLogValue .cardinality (reparsed (ofCardinality q rows).toJson) =
      .error (.missingField "table_stats") := by
  have hn : ¬ q.tableStats.isSome = true := by
    rw [Option.isNone_iff_eq_none.1 hs]
    decide
  rw [reparsed_toJson]
  unfold ofLogValue
  dsimp only
  rw [missingField?_ofCardinality, if_neg hn]
  rfl

/-- **It is usable when they came with it**, and then the row count is the one that was observed. -/
theorem exists_ofLogValue_reparsed_eq (ha : Target.cardinality.accepts rows = true)
    (ht : ∀ t ∈ q.timestamp, (Timestamp.parse? t.text).isSome = true)
    (hs : q.tableStats.isSome = true) :
    ∃ record, ofLogValue .cardinality (reparsed (ofCardinality q rows).toJson) = .ok record ∧
      record.cardinality = some rows := by
  have hx : (ofCardinality q rows).FiniteOutcomes := by
    refine ⟨fun x hm => ?_, fun _ hm => (nomatch hm), fun _ hm => (nomatch hm)⟩
    rw [← Option.some.inj hm]
    exact isFinite_of_accepts ha
  have hfields : missingField? .cardinality (ofCardinality q rows).printed = none := by
    rw [missingField?_ofCardinality, if_pos hs]
  exact ⟨_, ofLogValue_reparsed_eq hfields (partFault?_ofCardinality hs) hx ht rfl ha, rfl⟩

end ExecutionRecord

end QueryForecast
