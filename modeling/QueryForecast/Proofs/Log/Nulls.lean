import QueryForecast.Log.Line
import QueryForecast.Proofs.Json.Shedding
import QueryForecast.Proofs.Log.Codec

/-!
# Fields that are null

A field of a log record that is unknown may be left out, or come as `null`. Almost all fields that may be
left out decode alike in both cases, at every depth of the record. Three do not: the column of a filter,
the indexed columns of a table and the sort keys of a query may be left out, but with `null` the whole
line is refused.

* `FilterProfile.forgiving`, `Filter.forgiving`, `Query.forgiving`, `ExecutionRecord.forgiving` — the
  fields for which `null` is like an absent field.
* `ExecutionRecord.ShedsNulls` — a record without some of the fields that are `null`.
* `ExecutionRecord.StrictNull` — the three cases of `null` that are refused.
* `ExecutionRecord.null_fields_decode_as_absent` — what the line of such a record gives.
-/

namespace QueryForecast

open Json

/-! ## Fields -/

/-- What is done to a record before a field is set is done after it, if it leaves the field alone. -/
theorem read_eq_map {α β : Type} {read : Decoded β} {put put' : β → α} {f : α → α}
    (h : ∀ b, put' b = f (put b)) :
    (do return put' (← read) : Decoded α) = (do return put (← read) : Decoded α).map f := by
  cases read with
  | error fault => rfl
  | ok b => exact congrArg Except.ok (h b)

/-- Every field of a profile may be `null`. -/
theorem FilterProfile.forgiving : Forgiving form set restrict fun _ => True where
  required := rfl
  set_restrict name hf v p names := by
    simp only [form, List.mem_cons, List.not_mem_nil, or_false] at hf
    rcases hf with rfl | rfl | rfl | rfl | rfl | rfl | rfl | rfl | rfl | rfl | rfl | rfl | rfl
    all_goals exact read_eq_map fun _ => by simp [restrict]
  set_null name hf _ p names hn := by
    simp only [form, List.mem_cons, List.not_mem_nil, or_false] at hf
    rcases hf with rfl | rfl | rfl | rfl | rfl | rfl | rfl | rfl | rfl | rfl | rfl | rfl | rfl
    all_goals
      unfold restrict
      rw [if_neg hn]
      rfl

/-- The fields of a filter may be `null`, but for its column. -/
theorem Filter.forgiving : Forgiving form set restrict (· ≠ "column") where
  required := rfl
  set_restrict name hf v x names := by
    simp only [form, List.mem_cons, List.not_mem_nil, or_false] at hf
    rcases hf with rfl | rfl | rfl
    · exact read_eq_map fun _ => by simp [restrict]
    · exact read_eq_map fun _ => by simp [restrict]
    · simp [set, restrict, Except.map]
  set_null name hf hl x names hn := by
    simp only [form, List.mem_cons, List.not_mem_nil, or_false] at hf
    rcases hf with rfl | rfl | rfl
    · exact absurd rfl hl
    all_goals
      unfold restrict
      rw [if_neg hn]
      rfl

/-- The fields of a query may be `null`, but for its lists. -/
theorem Query.forgiving : Forgiving form set restrict
    (· ∉ ["filters", "joins", "aggregations", "sort"]) where
  required := rfl
  set_restrict name hf v q names := by
    simp only [form, List.mem_cons, List.not_mem_nil, or_false] at hf
    rcases hf with rfl | rfl | rfl | rfl | rfl | rfl | rfl | rfl
    all_goals exact read_eq_map fun _ => by simp [restrict]
  set_null name hf hl q names hn := by
    simp only [form, List.mem_cons, List.not_mem_nil, or_false] at hf
    rcases hf with rfl | rfl | rfl | rfl | rfl | rfl | rfl | rfl
    iterate 4 exact absurd (by decide) hl
    all_goals
      unfold restrict
      rw [if_neg hn]
      rfl

/-- Every observation may be `null`. -/
theorem ExecutionRecord.forgiving : Forgiving form set restrict fun _ => True where
  required := rfl
  set_restrict name hf v r names := by
    simp only [form, List.mem_cons, List.not_mem_nil, or_false] at hf
    rcases hf with rfl | rfl | rfl | rfl
    all_goals exact read_eq_map fun _ => by simp [restrict]
  set_null name hf _ r names hn := by
    simp only [form, List.mem_cons, List.not_mem_nil, or_false] at hf
    rcases hf with rfl | rfl | rfl | rfl
    all_goals
      unfold restrict
      rw [if_neg hn]
      rfl

/-! ## Records without some of their nulls -/

namespace ExecutionRecord

/-- The fields of a record, besides those inside its parts, that may be left out. -/
def optionalNames : List String :=
  ["sort", "timestamp", "has_indexes", "execution_time_ms", "optimal_strategy"]

/-- A part of a record without some of the fields that are `null` and may be left out: any field of the
profile or of a filter, and the indexed columns of the table statistics. -/
inductive ShedPart (name : String) : Json → Json → Prop
  | same (v : Json) : ShedPart name v v
  | profile {v w : Json} (hn : name = "features") (h : ShedObject (fun _ => True) v w) :
      ShedPart name v w
  | stats {v w : Json} (hn : name = "table_stats") (h : ShedObject (· = "indexed_columns") v w) :
      ShedPart name v w
  | filters {vs ws : List Json} (hn : name = "filters")
      (h : List.Forall₂ (ShedObject fun _ => True) vs ws) : ShedPart name (.arr vs) (.arr ws)

/-- `fs` is the record `es` without some of the fields that are `null` and may be left out. -/
def ShedsNulls (es fs : Entries) : Prop :=
  Shed (· ∈ optionalNames) ShedPart es fs

/-- A record with `null` in a field that may be left out, but is not decoded leniently. -/
inductive StrictNull (es : Entries) : Prop
  | sort (h : ("sort", .null) ∈ es)
  | indexedColumns {stats : Entries} (hs : ("table_stats", .obj stats) ∈ es)
      (h : ("indexed_columns", .null) ∈ stats)
  | column {filters : List Json} {x : Entries} (hf : ("filters", .arr filters) ∈ es)
      (hx : .obj x ∈ filters) (h : ("column", .null) ∈ x)

variable {es fs : Entries} {t : Target}

/-! ### Lenient nulls -/

/-- Table statistics without a strict `null` are left as they are. -/
theorem stats_eq_of_shed {v w : Json} (hstrict : ¬ StrictNull es) (hm : ("table_stats", v) ∈ es)
    (h : ShedObject (· = "indexed_columns") v w) : v = w := by
  cases h with
  | same => rfl
  | obj h =>
    refine congrArg Json.obj (h.eq_of_forall_not fun name hn he => hstrict ?_)
    exact .indexedColumns hm (he ▸ hn)

/-- A filter without a strict `null` is decoded alike. -/
theorem filter_eq_of_shed {v w : Json} (hcolumn : ∀ x, v = .obj x → ("column", .null) ∉ x)
    (hv : Distinct v) (h : ShedObject (fun _ => True) v w) : Filter.ofJson v = Filter.ofJson w := by
  refine asRecord_shed Filter.forgiving rfl ?_ hv
  cases h with
  | same => exact .same v
  | obj h =>
    refine .obj (h.imp (fun name hn _ he => ?_) fun _ _ _ _ hp => hp)
    exact hcolumn _ rfl (he ▸ hn)

theorem query_set_eq_of_shed {name : String} {v w : Json} (hv : Distinct v)
    (hstrict : ¬ StrictNull es) (hm : (name, v) ∈ es) (h : ShedPart name v w) (q : Query) :
    Query.set name v q = Query.set name w q := by
  cases h with
  | same => rfl
  | profile hn h =>
    subst hn
    have hd : FilterProfile.ofJson v = FilterProfile.ofJson w :=
      asRecord_shed FilterProfile.forgiving rfl h hv
    simp only [Query.set, h.asOption_eq hd]
  | stats hn h =>
    subst hn
    rw [stats_eq_of_shed hstrict hm h]
  | @filters vs ws hn h =>
    subst hn
    have hd : asList Filter.ofJson (.arr vs) = asList Filter.ofJson (.arr ws) := by
      cases hv with
      | arr hvs =>
        have hall : ∀ v ∈ vs, Distinct v ∧ ∀ x, v = .obj x → ("column", .null) ∉ x := fun v hmv =>
          ⟨hvs v hmv, fun x hx hc => hstrict (.column hm (hx ▸ hmv) hc)⟩
        refine asList_congr (((List.forall₂_and_left _ _).2 ⟨hall, h⟩).imp ?_)
        rintro v w ⟨⟨hd, hc⟩, hs⟩
        exact filter_eq_of_shed hc hd hs
    simp only [Query.set, hd]

theorem set_eq_of_shed {name : String} {v w : Json} (h : ShedPart name v w) (r : ExecutionRecord) :
    set name v r = set name w r := by
  cases h with
  | same => rfl
  | profile hn _ => subst hn; rfl
  | stats hn _ => subst hn; rfl
  | filters hn _ => subst hn; rfl

/-- **A record without strict nulls is decoded alike** when some of its nulls are left out. -/
theorem ofJson_shed (hv : Distinct (.obj es)) (hstrict : ¬ StrictNull es) (h : ShedsNulls es fs) :
    ofJson (.obj es) = ofJson (.obj fs) := by
  cases hv with
  | obj hn hvs =>
    have hquery : readEntries Query.form Query.set [] {} es =
        readEntries Query.form Query.set [] {} fs := by
      refine readEntries_shed Query.forgiving (h.imp (fun name hm hopt => ?_) fun _ _ _ _ hp => hp) hn
        (fun name v w hm hp q => query_set_eq_of_shed (hvs _ hm) hstrict hm hp q) rfl
        (List.disjoint_nil_right _) (List.disjoint_nil_right _)
      simp only [optionalNames, List.mem_cons, List.not_mem_nil, or_false] at hopt
      rcases hopt with rfl | rfl | rfl | rfl | rfl
      · exact absurd (.sort hm) hstrict
      all_goals decide
    have hobservations : readEntries form set [] {} es = readEntries form set [] {} fs :=
      readEntries_shed forgiving (h.imp (fun _ _ _ => trivial) fun _ _ _ _ hp => hp) hn
        (fun _ _ _ _ hp r => set_eq_of_shed hp r) rfl
        (List.disjoint_nil_right _) (List.disjoint_nil_right _)
    unfold ofJson
    dsimp only
    rw [hquery, hobservations]

/-- What a target needs may not be left out. -/
theorem not_optional_of_required {name : String} (h : name ∈ t.requiredFields) :
    name ∉ optionalNames := by
  revert name
  cases t <;> decide

theorem missingField?_shed (h : ShedsNulls es fs) : missingField? t es = missingField? t fs := by
  unfold missingField?
  rw [List.find?_congr fun name hm => congrArg _ (h.has_eq (not_optional_of_required hm))]

theorem partFault?_shed (hstrict : ¬ StrictNull es) (h : ShedsNulls es fs) :
    partFault? t es = partFault? t fs := by
  unfold partFault?
  cases t with
  | cardinality =>
    dsimp only
    have hname : "table_stats" ∉ optionalNames := by decide
    rcases h.get?_cases hname with ⟨he, hf⟩ | ⟨v, w, he, hf, hm, hp⟩
    · rw [he, hf]
    · rw [he, hf]
      cases hp with
      | same => rfl
      | profile hn _ => exact absurd hn (by decide)
      | stats _ hs => rw [stats_eq_of_shed hstrict hm hs]
      | filters hn _ => exact absurd hn (by decide)
  | selectivity =>
    dsimp only
    have hname : "features" ∉ optionalNames := by decide
    rcases h.get?_cases hname with ⟨he, hf⟩ | ⟨v, w, he, hf, hm, hp⟩
    · rw [he, hf]
    · rw [he, hf]
      cases hp with
      | same => rfl
      | profile _ hs => cases hs <;> rfl
      | stats hn _ => exact absurd hn (by decide)
      | filters hn _ => exact absurd hn (by decide)

/-- **A record without strict nulls gives the same** when some of its nulls are left out. -/
theorem ofLogValue_shed (hv : Distinct (.obj es)) (hstrict : ¬ StrictNull es) (h : ShedsNulls es fs) :
    ofLogValue t (.obj es) = ofLogValue t (.obj fs) := by
  unfold ofLogValue
  dsimp only
  rw [missingField?_shed h, partFault?_shed hstrict h, ofJson_shed hv hstrict h]

/-! ### Strict nulls -/

/-- **A record with a strict `null` does not decode.** -/
theorem exists_ofJson_eq_error (h : StrictNull es) : ∃ fault, ofJson (.obj es) = .error fault := by
  have hquery : ∃ fault, readEntries Query.form Query.set [] {} es = .error fault := by
    cases h with
    | sort hm => exact exists_readEntries_eq_error hm (by decide) (fun _ => ⟨_, rfl⟩) _ _
    | @indexedColumns stats hs hm =>
      refine exists_readEntries_eq_error hs (by decide) (fun q => ?_) _ _
      obtain ⟨fault, hf⟩ : ∃ fault, TableStats.ofJson (.obj stats) = .error fault :=
        exists_readEntries_eq_error hm (by decide) (fun _ => ⟨_, rfl⟩) _ _
      exact ⟨fault, by simp only [Query.set, asOption, hf]; rfl⟩
    | @column filters x hf hx hm =>
      refine exists_readEntries_eq_error hf (by decide) (fun q => ?_) _ _
      obtain ⟨fault, hfault⟩ : ∃ fault, asList Filter.ofJson (.arr filters) = .error fault :=
        exists_asList_eq_error hx
          (exists_readEntries_eq_error hm (by decide) (fun _ => ⟨_, rfl⟩) _ _)
      exact ⟨fault, by simp only [Query.set, hfault]; rfl⟩
  obtain ⟨fault, hf⟩ := hquery
  unfold ofJson
  dsimp only
  rw [hf]
  cases readEntries form set [] {} es with
  | error fault => exact ⟨fault, rfl⟩
  | ok r => exact ⟨fault, rfl⟩

theorem exists_ofLogValue_eq_error (h : StrictNull es) :
    ∃ fault, ofLogValue t (.obj es) = .error fault := by
  obtain ⟨fault, hf⟩ := exists_ofJson_eq_error h
  unfold ofLogValue
  dsimp only
  rw [hf]
  split
  · exact ⟨_, rfl⟩
  · exact ⟨_, rfl⟩

/-! ### Lines -/

/-- **A field that is `null` decodes like one that is left out**, in the line of any record and for
either target: any of the optional fields of the record, of its profile, of its filters and of its
table statistics may be left out without a change to the record or to the fault of the line. The
exceptions are the sort keys, the indexed columns and the column of a filter. With `null` in one of
these no record comes from the line. -/
theorem null_fields_decode_as_absent (t : Target) (number : Nat) {line line' : String}
    (he : parse? line = some (.obj es)) (hf : parse? line' = some (.obj fs)) (h : ShedsNulls es fs) :
    (¬ StrictNull es → parseLine t number line = parseLine t number line') ∧
      (StrictNull es → ∃ failure, parseLine t number line = .error failure) := by
  unfold parseLine ofLine
  rw [he, hf]
  dsimp only
  constructor
  · intro hstrict
    rw [ofLogValue_shed (distinct_of_parse? he) hstrict h]
  · intro hstrict
    obtain ⟨fault, hfault⟩ := exists_ofLogValue_eq_error (t := t) hstrict
    rw [hfault]
    exact ⟨_, rfl⟩

/-- The fields of a record in which each kind of them is `null` somewhere, and what is left without
these. -/
def nulledEntries : Entries :=
  [("actual_selectivity", .num (.whole 1)), ("features", .obj [("CorpusSize", .null)]),
    ("filters", .arr [.obj [("column", .str "age"), ("value", .null)]]), ("timestamp", .null)]

@[inherit_doc nulledEntries]
def plainEntries : Entries :=
  [("actual_selectivity", .num (.whole 1)), ("features", .obj []),
    ("filters", .arr [.obj [("column", .str "age")]])]

theorem shedsNulls_nulledEntries : ShedsNulls nulledEntries plainEntries := by
  have hfilter : ShedObject (fun _ => True) (.obj [("column", .str "age"), ("value", .null)])
      (.obj [("column", .str "age")]) :=
    .obj (.keep rfl (.drop trivial .nil))
  refine .keep (.same _) (.keep ?_ (.keep ?_ (.drop (by decide) .nil)))
  · exact .profile rfl (.obj (.drop trivial .nil))
  · exact .filters rfl (.cons hfilter .nil)

theorem null_fields_decode_as_absent_of_nulledEntries :
    let line := "\x7b\"filters\":[\x7b\"column\":\"age\",\"value\":null\x7d]," ++
      "\"features\":\x7b\"CorpusSize\":null\x7d,\"timestamp\":null,\"actual_selectivity\":1\x7d"
    let line' := "\x7b\"filters\":[\x7b\"column\":\"age\"\x7d]," ++
      "\"features\":\x7b\x7d,\"actual_selectivity\":1\x7d"
    parse? line = some (.obj nulledEntries) ∧ parse? line' = some (.obj plainEntries) ∧
      ShedsNulls nulledEntries plainEntries ∧ ¬ StrictNull nulledEntries ∧
      parseLine .selectivity 1 line = parseLine .selectivity 1 line' ∧
      (ofLogValue .selectivity (.obj plainEntries)).isOk = true := by
  intro line line'
  have he : parse? line = some (.obj nulledEntries) := by decide +kernel
  have hf : parse? line' = some (.obj plainEntries) := by decide +kernel
  have hstrict : ¬ StrictNull nulledEntries := by
    unfold nulledEntries
    rintro (h | ⟨hs, -⟩ | ⟨hl, hx, h⟩)
    · exact absurd h (by decide)
    · simp at hs
    · simp at hl
      subst hl
      simp at hx
      subst hx
      simp at h
  exact ⟨he, hf, shedsNulls_nulledEntries, hstrict,
    (null_fields_decode_as_absent .selectivity 1 he hf shedsNulls_nulledEntries).1 hstrict,
    by decide +kernel⟩

/-- A usable record, and the same record with `null` for its sort keys. -/
theorem exists_refused_null :
    ∃ (line line' : String) (es fs : Entries), parse? line = some (.obj es) ∧
      parse? line' = some (.obj fs) ∧ ShedsNulls es fs ∧
      (parseLine .selectivity 1 line').isOk = true ∧
      (parseLine .selectivity 1 line).isOk = false := by
  refine ⟨"\x7b\"features\":\x7b\x7d,\"sort\":null,\"actual_selectivity\":1\x7d",
    "\x7b\"features\":\x7b\x7d,\"actual_selectivity\":1\x7d",
    [("actual_selectivity", .num (.whole 1)), ("features", .obj []), ("sort", .null)],
    [("actual_selectivity", .num (.whole 1)), ("features", .obj [])],
    by decide +kernel, by decide +kernel, ?_, by decide +kernel, by decide +kernel⟩
  exact .keep (.same _) (.keep (.same _) (.drop (by decide) .nil))

end ExecutionRecord

end QueryForecast
