import QueryForecast.Log.Record
import QueryForecast.Proofs.Feature.Measured
import QueryForecast.Proofs.Json.Reordered

/-!
# Decoding encoded records

An encoded record leaves out what it does not have, puts its query and its observations side by side,
and writes `null` for a number that is not finite, while its decoders are more lenient than the
encoders. Each entry still restores the part that it was made of, whatever was read before, so the
record comes back from its entries in any order. What `returned` changes is what is lost.

* `Filter.ofJson_reordered`, `TableStats.ofJson_reordered`, `FilterProfile.ofJson_reordered` — the
  parts of a query.
* `Query.set_returned`, `ExecutionRecord.set_restrict` — one entry of a record.
* `ExecutionRecord.ofJson_reordered` — all entries of a record.
* `ExecutionRecord.decodes_own_encoding` — a record whose numbers are finite comes back unchanged.
-/

namespace QueryForecast

open Json Time

variable {f : Json → Json}

/-! ## Counts -/

theorem asCount_ofNat (n : Nat) : asCount (ofNat n) = .ok (some (min n maxCount)) := by
  show (if (n : Int) < 0 then Except.error (DecodeFault.notACount (.integer n))
    else .ok (some (min (n : Int).toNat maxCount))) = _
  rw [if_neg (by omega), Int.toNat_natCast]

theorem asCount64_toNat (n : UInt64) : asCount64 (ofNat n.toNat) = .ok n := by
  have hm : min n.toNat maxCount = n.toNat := Nat.min_eq_left (Nat.le_of_lt_succ n.toNat_lt)
  unfold asCount64
  rw [asCount_ofNat, hm, ok_bind, Option.getD_some, UInt64.ofNat_toNat]
  rfl

theorem asCount32_toNat (absent n : UInt32) : asCount32 absent (ofNat n.toNat) = .ok n := by
  have hlt := n.toNat_lt
  have hm : min n.toNat maxCount = n.toNat := Nat.min_eq_left (by unfold maxCount; omega)
  unfold asCount32
  rw [asCount_ofNat, hm, ok_bind]
  dsimp only
  rw [if_pos hlt, UInt32.ofNat_toNat]
  rfl

/-! ## Parts -/

theorem ite_eq_of_present {α : Type} {o : Option α} {p : Prop} [Decidable p] (h : ∀ a ∈ o, p) :
    (if p then o else none) = o := by
  cases o with
  | none => exact ite_self none
  | some a => exact if_pos (h a rfl)

/-! ## Filters -/

namespace Filter

/-- The filter without the parts that are not among some names. -/
def restrict (x : Filter) (names : List String) : Filter where
  column := if "column" ∈ names then x.column else ""
  operator := if "operator" ∈ names then x.operator else defaultOperator
  value := if "value" ∈ names then x.value else .null

/-- The filter with its value as it comes back. -/
def returned (f : Json → Json) (x : Filter) : Filter :=
  { x with value := f x.value }

theorem ofJson_reordered (hf : Reorders f) (x : Filter) :
    ofJson (f x.toJson) = .ok (x.returned f) := by
  refine hf.asRecord_eq (x.returned f).restrict (of_decide_eq_true rfl) rfl
    (fun e he names => ?_) fun names hall => ?_
  · simp only [List.mem_cons, List.not_mem_nil, or_false] at he
    rcases he with rfl | rfl | rfl
    · simp [set, restrict, returned, hf.str, asString]
    · simp [set, restrict, returned, hf.str, asCategory, asOption, asString, Except.map]
    · simp [set, restrict, returned]
  · simp [form] at hall
    simp [restrict, hall]

end Filter

namespace TableStats

/-- The statistics without the parts that are not among some names. -/
def restrict (s : TableStats) (names : List String) : TableStats where
  rowCount := if "row_count" ∈ names then s.rowCount else 0
  distinctCount := if "distinct_count" ∈ names then s.distinctCount else 0
  indexedColumns := if "indexed_columns" ∈ names then s.indexedColumns else []

/-- Encoded statistics always have their counts. -/
theorem exists_reparsed_eq (s : TableStats) :
    ∃ es : Entries, reparsed s.toJson = .obj es ∧ es.has "row_count" = true ∧
      es.has "distinct_count" = true := by
  refine ⟨_, rfl, ?_⟩
  cases s.indexedColumns.isEmpty with
  | true =>
    constructor
    · rw [Entries.has_lastOfEach_reparsedEntries (of_decide_eq_true rfl)]
      rfl
    · rw [Entries.has_lastOfEach_reparsedEntries (of_decide_eq_true rfl)]
      rfl
  | false =>
    constructor
    · rw [Entries.has_lastOfEach_reparsedEntries (of_decide_eq_true rfl)]
      rfl
    · rw [Entries.has_lastOfEach_reparsedEntries (of_decide_eq_true rfl)]
      rfl

theorem ofJson_reordered (hf : Reorders f) (s : TableStats) : ofJson (f s.toJson) = .ok s := by
  have hcolumns : asList asString (f (.arr (s.indexedColumns.map .str))) = .ok s.indexedColumns := by
    rw [hf.asList_eq (fun name _ => by rw [hf.str]; rfl), List.map_id']
  obtain ⟨rows, distinct, columns⟩ := s
  cases columns with
  | nil =>
    refine hf.asRecord_eq (restrict ⟨rows, distinct, []⟩) (of_decide_eq_true rfl) rfl
      (fun e he names => ?_) fun names hall => ?_
    · simp only [List.isEmpty_nil, if_true, List.append_nil, List.mem_cons, List.not_mem_nil,
        or_false] at he
      rcases he with rfl | rfl
      · simp [set, restrict, hf.count, asCount64_toNat]
      · simp [set, restrict, hf.count, asCount64_toNat]
    · simp [form] at hall
      simp [restrict, hall]
  | cons column columns =>
    refine hf.asRecord_eq (restrict ⟨rows, distinct, column :: columns⟩) (of_decide_eq_true rfl) rfl
      (fun e he names => ?_) fun names hall => ?_
    · simp only [List.isEmpty_cons, Bool.false_eq_true, if_false, List.cons_append, List.nil_append,
        List.mem_cons, List.not_mem_nil, or_false] at he
      rcases he with rfl | rfl | rfl
      · simp [set, restrict, hf.count, asCount64_toNat]
      · simp [set, restrict, hf.count, asCount64_toNat]
      · simp only [set, hcolumns]
        simp [restrict]
    · simp [form] at hall
      simp [restrict, hall]

end TableStats

namespace FilterProfile

/-- The profile without the parts that are not among some names. -/
def restrict (p : FilterProfile) (names : List String) : FilterProfile where
  property := if "PropertyName" ∈ names then p.property else unknownCategory
  operator := if "Operator" ∈ names then p.operator else unknownCategory
  complexity := if "FilterComplexity" ∈ names then p.complexity else 1
  propertyCardinality := if "PropertyCardinality" ∈ names then p.propertyCardinality else 0
  corpusSize := if "CorpusSize" ∈ names then p.corpusSize else 0
  pastMedian := if "HistoricalSelectivityP50" ∈ names then p.pastMedian else 0.0
  pastHigh := if "HistoricalSelectivityP95" ∈ names then p.pastHigh else 0.0
  hour := if "TimeOfDayHour" ∈ names then p.hour else 0
  weekday := if "DayOfWeek" ∈ names then p.weekday else 0
  vectorNorm := if "QueryVectorNorm" ∈ names then p.vectorNorm else 0.0
  dimensions := if "VectorDimensions" ∈ names then p.dimensions else 0
  cacheHitRate := if "CacheHitRateRecent" ∈ names then p.cacheHitRate else 0.0
  latencyHigh := if "AverageQueryLatencyP95" ∈ names then p.latencyHigh else 0.0

/-- The profile as it comes back: a measure that is not finite is zero. -/
def returned (p : FilterProfile) : FilterProfile :=
  { p with
    pastMedian := finiteOrZero p.pastMedian
    pastHigh := finiteOrZero p.pastHigh
    vectorNorm := finiteOrZero p.vectorNorm
    cacheHitRate := finiteOrZero p.cacheHitRate
    latencyHigh := finiteOrZero p.latencyHigh }

theorem ofJson_reordered (hf : Reorders f) (p : FilterProfile) :
    ofJson (f p.toJson) = .ok p.returned := by
  refine hf.asRecord_eq p.returned.restrict (of_decide_eq_true rfl) rfl
    (fun e he names => ?_) fun names hall => ?_
  · simp only [List.mem_cons, List.not_mem_nil, or_false] at he
    rcases he with rfl | rfl | rfl | rfl | rfl | rfl | rfl | rfl | rfl | rfl | rfl | rfl | rfl
    · simp [set, restrict, returned, hf.str, asCategory, asOption, asString, Except.map]
    · simp [set, restrict, returned, hf.str, asCategory, asOption, asString, Except.map]
    · simp [set, restrict, returned, hf.count, asCount32_toNat]
    · simp [set, restrict, returned, hf.count, asCount64_toNat]
    · simp [set, restrict, returned, hf.count, asCount64_toNat]
    · simp [set, restrict, returned, hf.float, asMeasure_ofFloat]
    · simp [set, restrict, returned, hf.float, asMeasure_ofFloat]
    · simp [set, restrict, returned, hf.count, asCount32_toNat]
    · simp [set, restrict, returned, hf.count, asCount32_toNat]
    · simp [set, restrict, returned, hf.float, asMeasure_ofFloat]
    · simp [set, restrict, returned, hf.count, asCount32_toNat]
    · simp [set, restrict, returned, hf.float, asMeasure_ofFloat]
    · simp [set, restrict, returned, hf.float, asMeasure_ofFloat]
  · simp [form] at hall
    simp [restrict, hall]

end FilterProfile

namespace Query

/-- The query without the parts that are not among some names. -/
def restrict (q : Query) (names : List String) : Query where
  filters := if "filters" ∈ names then q.filters else []
  joins := if "joins" ∈ names then q.joins else []
  aggregations := if "aggregations" ∈ names then q.aggregations else []
  sortKeys := if "sort" ∈ names then q.sortKeys else []
  tableStats := if "table_stats" ∈ names then q.tableStats else none
  hasIndexes := if "has_indexes" ∈ names then q.hasIndexes else none
  timestamp := if "timestamp" ∈ names then q.timestamp else none
  profile := if "features" ∈ names then q.profile else none

/-- The query as it comes back. -/
def returned (f : Json → Json) (q : Query) : Query :=
  { q with
    filters := q.filters.map (Filter.returned f)
    joins := q.joins.map f
    aggregations := q.aggregations.map f
    sortKeys := q.sortKeys.map f
    timestamp := q.timestamp.bind fun t => Timestamp.parse? t.text
    profile := q.profile.map FilterProfile.returned }

/-- The parts of an encoded query. -/
theorem mem_toEntries {q : Query} {e : String × Json} :
    e ∈ q.toEntries ↔
      e = ("filters", .arr (q.filters.map Filter.toJson)) ∨ e = ("joins", .arr q.joins) ∨
      e = ("aggregations", .arr q.aggregations) ∨ e = ("sort", .arr q.sortKeys) ∨
      (∃ s ∈ q.tableStats, e = ("table_stats", s.toJson)) ∨
      (∃ b ∈ q.hasIndexes, e = ("has_indexes", .bool b)) ∨
      (∃ t ∈ q.timestamp, e = ("timestamp", timestampToJson t)) ∨
      ∃ p ∈ q.profile, e = ("features", p.toJson) := by
  unfold toEntries
  simp only [List.mem_append, mem_optionalEntry, List.mem_cons, List.not_mem_nil, or_false, or_assoc]

theorem mem_fields_of_mem_toEntries {q : Query} {e : String × Json} (he : e ∈ q.toEntries) :
    e.1 ∈ form.fields := by
  rcases mem_toEntries.1 he with rfl | rfl | rfl | rfl | ⟨_, -, rfl⟩ | ⟨_, -, rfl⟩ | ⟨_, -, rfl⟩ |
    ⟨_, -, rfl⟩ <;> simp [form]

theorem timestampOfJson_reordered (hf : Reorders f) {t u : Timestamp}
    (h : Timestamp.parse? t.text = some u) : timestampOfJson (f (timestampToJson t)) = .ok u := by
  unfold timestampOfJson timestampToJson
  have hs : asString (.str t.text) = .ok t.text := rfl
  rw [hf.str, hs, ok_bind, h]
  rfl

/-- **Each part of a query comes back.** -/
theorem set_returned (hf : Reorders f) {q : Query}
    (ht : ∀ t ∈ q.timestamp, (Timestamp.parse? t.text).isSome = true) {e : String × Json}
    (he : e ∈ q.toEntries) (names : List String) :
    set e.1 (f e.2) ((q.returned f).restrict names) =
      .ok ((q.returned f).restrict (e.1 :: names)) := by
  have hvalues : ∀ vs : List Json, asList .ok (f (.arr vs)) = .ok (vs.map f) := by
    intro vs
    have h : asList .ok (f (.arr (vs.map fun v => v))) = .ok (vs.map f) :=
      hf.asList_eq fun _ _ => rfl
    rwa [List.map_id'] at h
  rcases mem_toEntries.1 he with rfl | rfl | rfl | rfl | ⟨s, hs, rfl⟩ | ⟨b, hb, rfl⟩ | ⟨t, hq, rfl⟩ |
    ⟨p, hp, rfl⟩
  · simp only [set, hf.asList_eq fun x _ => Filter.ofJson_reordered hf x]
    simp [restrict, returned]
  · simp only [set, hvalues]
    simp [restrict, returned]
  · simp only [set, hvalues]
    simp [restrict, returned]
  · simp only [set, hvalues]
    simp [restrict, returned]
  · simp only [set, asOption_of_ok (s.ofJson_reordered hf) rfl]
    simp [restrict, returned, Option.mem_def.1 hs]
  · have hbool : asBool (f (.bool b)) = .ok b := by rw [hf.bool]; rfl
    simp only [set, asOption_of_ok hbool rfl]
    simp [restrict, returned, Option.mem_def.1 hb]
  · obtain ⟨u, hu⟩ := Option.isSome_iff_exists.1 (ht t hq)
    simp only [set, asOption_of_ok (timestampOfJson_reordered hf hu) rfl]
    simp [restrict, returned, Option.mem_def.1 hq, hu]
  · simp only [set, asOption_of_ok (p.ofJson_reordered hf) rfl]
    simp [restrict, returned, Option.mem_def.1 hp]

/-- A query is whole when no part that it has is missing. -/
theorem restrict_returned {q : Query} {names : List String} (h : ∀ e ∈ q.toEntries, e.1 ∈ names) :
    (q.returned f).restrict names = q.returned f := by
  simp only [mem_toEntries] at h
  have hfilters : "filters" ∈ names := h _ (.inl rfl)
  have hjoins : "joins" ∈ names := h _ (.inr (.inl rfl))
  have haggregations : "aggregations" ∈ names := h _ (.inr (.inr (.inl rfl)))
  have hsort : "sort" ∈ names := h _ (.inr (.inr (.inr (.inl rfl))))
  have hstats : ∀ s ∈ q.tableStats, "table_stats" ∈ names := fun s hs =>
    h ("table_stats", s.toJson) (by simp [Option.mem_def.1 hs])
  have hindexes : ∀ b ∈ q.hasIndexes, "has_indexes" ∈ names := fun b hb =>
    h ("has_indexes", .bool b) (by simp [Option.mem_def.1 hb])
  have htime : ∀ u ∈ q.timestamp.bind fun t => Timestamp.parse? t.text, "timestamp" ∈ names := by
    intro u hu
    obtain ⟨t, ht, -⟩ := Option.bind_eq_some_iff.1 hu
    exact h ("timestamp", timestampToJson t) (by simp [ht])
  have hprofile : ∀ p ∈ q.profile.map FilterProfile.returned, "features" ∈ names := by
    intro p hp
    obtain ⟨p', hp', -⟩ := Option.map_eq_some_iff.1 hp
    exact h ("features", p'.toJson) (by simp [hp'])
  unfold restrict returned
  simp only [if_pos hfilters, if_pos hjoins, if_pos haggregations, if_pos hsort,
    ite_eq_of_present hstats, ite_eq_of_present hindexes, ite_eq_of_present htime,
    ite_eq_of_present hprofile]

end Query

/-! ## Records -/

namespace ExecutionRecord

/-- The observations without the parts that are not among some names. -/
def restrict (r : ExecutionRecord) (names : List String) : ExecutionRecord where
  cardinality := if "actual_cardinality" ∈ names then r.cardinality else none
  selectivity := if "actual_selectivity" ∈ names then r.selectivity else none
  executionTime := if "execution_time_ms" ∈ names then r.executionTime else none
  bestStrategy := if "optimal_strategy" ∈ names then r.bestStrategy else none

/-- The record as it comes back. -/
def returned (f : Json → Json) (r : ExecutionRecord) : ExecutionRecord :=
  { r with query := r.query.returned f }

/-- The entries of an encoded record. -/
def entries (r : ExecutionRecord) : Entries :=
  r.query.toEntries
    ++ optionalEntry "actual_cardinality" ofFloat r.cardinality
    ++ optionalEntry "actual_selectivity" ofFloat r.selectivity
    ++ optionalEntry "execution_time_ms" ofFloat r.executionTime
    ++ optionalEntry "optimal_strategy" Strategy.toJson r.bestStrategy

theorem names_entries_sublist (r : ExecutionRecord) :
    (r.entries.map Prod.fst).Sublist (Query.form.fields ++ form.fields) := by
  unfold entries Query.toEntries
  simp only [List.map_append]
  have hs := @names_optionalEntry_sublist
  exact ((((((((List.Sublist.refl _).append hs).append hs).append hs).append hs).append hs).append
    hs).append hs).append hs

theorem nodup_entries (r : ExecutionRecord) : (r.entries.map Prod.fst).Nodup :=
  r.names_entries_sublist.nodup (of_decide_eq_true rfl)

/-- An entry holds one of the observations of a record. -/
def Observes (r : ExecutionRecord) (e : String × Json) : Prop :=
  (∃ x ∈ r.cardinality, e = ("actual_cardinality", ofFloat x)) ∨
  (∃ x ∈ r.selectivity, e = ("actual_selectivity", ofFloat x)) ∨
  (∃ x ∈ r.executionTime, e = ("execution_time_ms", ofFloat x)) ∨
  ∃ s ∈ r.bestStrategy, e = ("optimal_strategy", s.toJson)

/-- An entry of an encoded record is a part of the query or an observation. -/
theorem mem_entries {r : ExecutionRecord} {e : String × Json} :
    e ∈ r.entries ↔ e ∈ r.query.toEntries ∨ r.Observes e := by
  unfold entries Observes
  simp only [List.mem_append, mem_optionalEntry, or_assoc]

theorem mem_known_query {r : ExecutionRecord} {e : String × Json} :
    e ∈ Query.form.known r.entries ↔ e ∈ r.query.toEntries := by
  unfold RecordForm.known
  rw [List.mem_filter, mem_entries, List.contains_iff_mem]
  constructor
  · rintro ⟨he | ⟨x, -, rfl⟩ | ⟨x, -, rfl⟩ | ⟨x, -, rfl⟩ | ⟨s, -, rfl⟩, hf⟩
    · exact he
    all_goals simp [Query.form] at hf
  · exact fun he => ⟨.inl he, Query.mem_fields_of_mem_toEntries he⟩

theorem mem_known_observations {r : ExecutionRecord} {e : String × Json} :
    e ∈ form.known r.entries ↔ r.Observes e := by
  have hdisjoint : ∀ name ∈ Query.form.fields, name ∉ form.fields := by decide
  unfold RecordForm.known
  rw [List.mem_filter, mem_entries, List.contains_iff_mem]
  constructor
  · rintro ⟨he | he, hf⟩
    · exact absurd hf (hdisjoint _ (Query.mem_fields_of_mem_toEntries he))
    · exact he
  · intro he
    refine ⟨.inr he, ?_⟩
    rcases he with ⟨x, -, rfl⟩ | ⟨x, -, rfl⟩ | ⟨x, -, rfl⟩ | ⟨s, -, rfl⟩ <;> simp [form]

/-- The outcomes of a record are finite. -/
structure FiniteOutcomes (r : ExecutionRecord) : Prop where
  cardinality : ∀ x ∈ r.cardinality, x.isFinite = true
  selectivity : ∀ x ∈ r.selectivity, x.isFinite = true
  executionTime : ∀ x ∈ r.executionTime, x.isFinite = true

theorem asOption_asFloat (hf : Reorders f) {x : Float} (hx : x.isFinite = true) :
    asOption asFloat (f (ofFloat x)) = .ok (some x) := by
  rw [hf.float]
  refine asOption_of_ok ?_ rfl
  rw [asFloat_ofFloat, if_pos hx]

/-- **Each observation comes back.** -/
theorem set_restrict (hf : Reorders f) {r : ExecutionRecord} (hx : r.FiniteOutcomes)
    {e : String × Json} (he : e ∈ form.known r.entries) (names : List String) :
    set e.1 (f e.2) (r.restrict names) = .ok (r.restrict (e.1 :: names)) := by
  rcases mem_known_observations.1 he with ⟨x, hm, rfl⟩ | ⟨x, hm, rfl⟩ | ⟨x, hm, rfl⟩ | ⟨s, hm, rfl⟩
  · simp only [set, asOption_asFloat hf (hx.cardinality x hm)]
    simp [restrict, Option.mem_def.1 hm]
  · simp only [set, asOption_asFloat hf (hx.selectivity x hm)]
    simp [restrict, Option.mem_def.1 hm]
  · simp only [set, asOption_asFloat hf (hx.executionTime x hm)]
    simp [restrict, Option.mem_def.1 hm]
  · have hs : Strategy.ofJson (f s.toJson) = .ok s := by
      unfold Strategy.toJson
      rw [hf.str]
      exact s.ofJson_toJson
    simp only [set, asOption_of_ok hs rfl]
    simp [restrict, Option.mem_def.1 hm]

theorem readEntries_observations (hf : Reorders f) {r : ExecutionRecord} (hx : r.FiniteOutcomes)
    {entries' : Entries} (hp : entries'.Perm (r.entries.map fun e => (e.1, f e.2))) :
    readEntries form set [] {} entries' = .ok { r with query := {} } := by
  obtain ⟨names, hm, hread⟩ := exists_readEntries_restrict form set r.restrict r.nodup_entries rfl hp
    fun e he names => set_restrict hf hx he names
  have hnames : ∀ e ∈ form.known r.entries, e.1 ∈ names := fun e he =>
    (hm e.1).2 ⟨List.contains_iff_mem.1 (List.mem_filter.1 he).2,
      List.mem_map_of_mem (List.mem_filter.1 he).1⟩
  simp only [mem_known_observations] at hnames
  refine hread.trans (congrArg Except.ok ?_)
  unfold restrict
  rw [ite_eq_of_present fun x hx => hnames ("actual_cardinality", ofFloat x) (.inl ⟨x, hx, rfl⟩),
    ite_eq_of_present fun x hx => hnames ("actual_selectivity", ofFloat x) (.inr (.inl ⟨x, hx, rfl⟩)),
    ite_eq_of_present fun x hx =>
      hnames ("execution_time_ms", ofFloat x) (.inr (.inr (.inl ⟨x, hx, rfl⟩))),
    ite_eq_of_present fun s hs =>
      hnames ("optimal_strategy", s.toJson) (.inr (.inr (.inr ⟨s, hs, rfl⟩)))]

theorem readEntries_query (hf : Reorders f) {r : ExecutionRecord}
    (ht : ∀ t ∈ r.query.timestamp, (Timestamp.parse? t.text).isSome = true)
    {entries' : Entries} (hp : entries'.Perm (r.entries.map fun e => (e.1, f e.2))) :
    readEntries Query.form Query.set [] {} entries' = .ok (r.query.returned f) := by
  obtain ⟨names, hm, hread⟩ := exists_readEntries_restrict Query.form Query.set
    (r.query.returned f).restrict r.nodup_entries rfl hp fun e he names =>
      Query.set_returned hf ht (mem_known_query.1 he) names
  refine hread.trans (congrArg Except.ok (Query.restrict_returned fun e he => ?_))
  have hk := mem_known_query.2 he
  exact (hm e.1).2 ⟨List.contains_iff_mem.1 (List.mem_filter.1 hk).2,
    List.mem_map_of_mem (List.mem_filter.1 hk).1⟩

/-- **An encoded record is decoded**, also from its reordered entries. -/
theorem ofJson_reordered (hf : Reorders f) {r : ExecutionRecord} (hx : r.FiniteOutcomes)
    (ht : ∀ t ∈ r.query.timestamp, (Timestamp.parse? t.text).isSome = true) :
    ofJson (f r.toJson) = .ok (r.returned f) := by
  obtain ⟨entries', he, hp⟩ := hf.obj r.entries r.nodup_entries
  have hj : f r.toJson = .obj entries' := he
  rw [hj]
  unfold ofJson
  dsimp only
  rw [readEntries_observations hf hx hp, ok_bind, readEntries_query hf ht hp]
  rfl

/-- The entries of a record after printing and parsing. -/
def printed (r : ExecutionRecord) : Entries :=
  Entries.lastOfEach (reparsedEntries r.entries)

theorem reparsed_toJson (r : ExecutionRecord) : reparsed r.toJson = .obj r.printed :=
  rfl

theorem printed_perm (r : ExecutionRecord) :
    r.printed.Perm (r.entries.map fun e => (e.1, reparsed e.2)) := by
  unfold printed
  rw [← reparsedEntries_eq_map]
  exact Entries.lastOfEach_perm (by rw [names_reparsedEntries]; exact r.nodup_entries)

theorem has_printed (r : ExecutionRecord) (name : String) : r.printed.has name = r.entries.has name :=
  Entries.has_lastOfEach_reparsedEntries r.nodup_entries name

theorem get?_printed {r : ExecutionRecord} {name : String} {v : Json} (h : (name, v) ∈ r.entries) :
    r.printed.get? name = some (reparsed v) := by
  have hn : (r.printed.map Prod.fst).Perm (r.entries.map Prod.fst) := by
    have hp := r.printed_perm.map Prod.fst
    rwa [List.map_map] at hp
  refine Entries.get?_eq_some (hn.nodup_iff.2 r.nodup_entries) ?_
  rw [r.printed_perm.mem_iff]
  exact List.mem_map.2 ⟨_, h, rfl⟩

end ExecutionRecord

/-! ## What comes back unchanged -/

theorem finiteOrZero_of_isFinite {x : Float} (h : x.isFinite = true) : finiteOrZero x = x :=
  if_pos h

theorem FilterProfile.returned_eq {p : FilterProfile} (h : ∀ x ∈ p.measures, x.isFinite = true) :
    p.returned = p := by
  unfold measures at h
  simp only [List.forall_mem_cons] at h
  obtain ⟨h1, h2, h3, h4, h5, -⟩ := h
  unfold returned
  rw [finiteOrZero_of_isFinite h1, finiteOrZero_of_isFinite h2, finiteOrZero_of_isFinite h3,
    finiteOrZero_of_isFinite h4, finiteOrZero_of_isFinite h5]

namespace Query

/-- The values that a query carries along without reading them. -/
def carried (q : Query) : List Json :=
  q.filters.map (·.value) ++ q.joins ++ q.aggregations ++ q.sortKeys

theorem returned_eq {q : Query} (hc : ∀ v ∈ q.carried, f v = v)
    (ht : ∀ t ∈ q.timestamp, Timestamp.parse? t.text = some t)
    (hp : ∀ p ∈ q.profile, ∀ x ∈ p.measures, x.isFinite = true) : q.returned f = q := by
  unfold carried at hc
  simp only [List.forall_mem_append, List.forall_mem_map] at hc
  obtain ⟨⟨⟨hfilters, hjoins⟩, haggregations⟩, hsort⟩ := hc
  have hsame : ∀ vs : List Json, (∀ v ∈ vs, f v = v) → vs.map f = vs := fun vs h =>
    (List.map_congr_left h).trans (List.map_id' vs)
  have hx : q.filters.map (Filter.returned f) = q.filters := by
    refine (List.map_congr_left fun x hm => ?_).trans (List.map_id' _)
    unfold Filter.returned
    rw [hfilters x hm]
  have htime : (q.timestamp.bind fun t => Timestamp.parse? t.text) = q.timestamp := by
    cases hq : q.timestamp with
    | none => rfl
    | some t => rw [Option.bind_some, ht t hq]
  have hprofile : q.profile.map FilterProfile.returned = q.profile := by
    cases hq : q.profile with
    | none => rfl
    | some p => exact congrArg some (FilterProfile.returned_eq (hp p hq))
  unfold returned
  rw [hx, hsame _ hjoins, hsame _ haggregations, hsame _ hsort, htime, hprofile]

end Query

namespace ExecutionRecord

/-- The numbers of a record: its outcomes and the measures of its profile. -/
def numbers (r : ExecutionRecord) : List Float :=
  r.cardinality.toList ++ r.selectivity.toList ++ r.executionTime.toList ++
    r.query.profile.toList.flatMap FilterProfile.measures

/-- **An encoded record decodes to itself** when its numbers are finite and its timestamp can be read
from its own text, whatever parts it has. So it does when the entries of its objects were sorted and
what it carries along is such that sorting leaves it alone. -/
theorem decodes_own_encoding {r : ExecutionRecord} (hx : ∀ x ∈ r.numbers, x.isFinite = true)
    (ht : ∀ t ∈ r.query.timestamp, Timestamp.parse? t.text = some t) :
    ofJson r.toJson = .ok r ∧
      ((∀ v ∈ r.query.carried, reparsed v = v) → ofJson (reparsed r.toJson) = .ok r) := by
  unfold numbers at hx
  simp only [List.forall_mem_append, Option.mem_toList, List.mem_flatMap] at hx
  obtain ⟨⟨⟨hcardinality, hselectivity⟩, htime⟩, hprofile⟩ := hx
  have hread : ∀ t ∈ r.query.timestamp, (Timestamp.parse? t.text).isSome = true := fun t hm => by
    rw [ht t hm]
    rfl
  have hsame : ∀ {f : Json → Json}, (∀ v ∈ r.query.carried, f v = v) → r.returned f = r := by
    intro f hc
    unfold returned
    rw [Query.returned_eq hc ht fun p hp x hm => hprofile x ⟨p, hp, hm⟩]
  constructor
  · exact (ofJson_reordered .id ⟨hcardinality, hselectivity, htime⟩ hread).trans
      (congrArg Except.ok (hsame fun _ _ => rfl))
  · intro hc
    exact (ofJson_reordered .reparsed ⟨hcardinality, hselectivity, htime⟩ hread).trans
      (congrArg Except.ok (hsame hc))

/-- A record of a filter on prices with a join, without aggregations and without a row count. -/
def priceRecord : ExecutionRecord where
  query :=
    { filters := [⟨"price", "<", .num (.real 9.5)⟩]
      joins := [.obj [("left", .str "offers"), ("right", .arr [.null, .bool true])]]
      sortKeys := [.str "price"]
      tableStats := some { rowCount := 10, distinctCount := 2, indexedColumns := ["price"] }
      timestamp := some (.ofParts 19783 3661 5000000)
      profile := some { property := "price", operator := "<", vectorNorm := 1.5 } }
  selectivity := some 0.25
  bestStrategy := some .preFilter

theorem decodes_own_encoding_of_priceRecord :
    ofJson priceRecord.toJson = .ok priceRecord ∧
      ofJson (reparsed priceRecord.toJson) = .ok priceRecord := by
  obtain ⟨hdeclared, hsorted⟩ := decodes_own_encoding (r := priceRecord) (by decide +kernel)
    (by decide +kernel)
  exact ⟨hdeclared, hsorted (by decide +kernel)⟩

end ExecutionRecord

end QueryForecast
