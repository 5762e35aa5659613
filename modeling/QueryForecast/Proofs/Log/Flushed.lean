import Mathlib.Data.List.DropRight
import QueryForecast.Proofs.Log.Lines
import QueryForecast.Proofs.Log.Observed
import QueryForecast.Proofs.Storage.Appending

/-!
# Observations that are written to a log and read again

What was observed while serving waits in the backlog until it is written to a log, from which the
next model is trained. Every observation gives a line, but those whose query came without statistics
of the table are skipped when the log is read.

* `Estimator.records_observeAll` — the backlog keeps the last of the accepted observations.
* `Observation.exists_parseLine_eq` — the line of an observation with statistics is usable.
* `LogReading.counts_read_logBytes` — what a log of some records amounts to.
* `Estimator.flushed_observations` — what a fresh log of the backlog amounts to.
-/

namespace QueryForecast

open Time

/-! ## What the backlog keeps -/

/-- A query that returned a number of rows while serving. -/
structure Observation where
  query : Query
  rows : Float
  now : Timestamp

namespace Observation

/-- Whether the number of rows is recorded. -/
def accepted (o : Observation) : Bool :=
  Target.cardinality.accepts o.rows

/-- What is recorded of an observation. -/
def record (o : Observation) : ExecutionRecord :=
  .ofCardinality (Estimator.stamped o.query o.now) o.rows

/-- Whether the table's statistics came with the query. -/
def hasStats (o : Observation) : Bool :=
  o.query.tableStats.isSome

/-- What is relied on of texts: the line of an observation is parsed as what was printed, and its
timestamp is one. -/
structure IsLegible (o : Observation) : Prop where
  line : Json.parse? o.record.toLine = some (Json.reparsed o.record.toJson)
  time : ∀ t ∈ o.record.query.timestamp, (Timestamp.parse? t.text).isSome = true

end Observation

theorem rtake_append_rtake {α : Type} (n : Nat) (xs ys : List α) :
    (xs.rtake n ++ ys).rtake n = (xs ++ ys).rtake n := by
  rw [List.rtake_eq_reverse_take_reverse, List.rtake_eq_reverse_take_reverse,
    List.rtake_eq_reverse_take_reverse, List.reverse_append, List.reverse_append,
    List.reverse_reverse, List.take_append, List.take_append, List.take_take]
  congr 3
  omega

namespace Estimator

/-- The estimator after some observations, the first one first. -/
def observeAll (e : Estimator) (observations : List Observation) : Estimator :=
  observations.foldl (fun e o => e.observeCardinality o.query o.rows o.now) e

/-- The observations that the backlog of an estimator with these settings keeps. -/
def kept (settings : EstimatorSettings) (observations : List Observation) : List Observation :=
  (observations.filter Observation.accepted).rtake (max settings.backlogCapacity 1)

theorem records_push (b : Backlog) (record : ExecutionRecord) :
    (b.push record).records = (b.records ++ [record]).rtake b.capacity := by
  unfold List.rtake
  rw [List.length_append, List.length_singleton]
  rfl

theorem backlog_observeCardinality (e : Estimator) (o : Observation) :
    (e.observeCardinality o.query o.rows o.now).backlog =
      if o.accepted then e.backlog.push o.record else e.backlog := by
  unfold observeCardinality Observation.accepted
  split <;> rfl

/-- **The backlog keeps the last records**, as many as there is room for. -/
theorem records_observeAll (e : Estimator) (observations : List Observation) :
    (e.observeAll observations).backlog.records =
      (e.backlog.records ++ (observations.filter Observation.accepted).map
        Observation.record).rtake e.backlog.capacity := by
  induction observations generalizing e with
  | nil =>
    rw [List.filter_nil, List.map_nil, List.append_nil, List.rtake,
      Nat.sub_eq_zero_of_le e.backlog.length_le]
    rfl
  | cons o observations ih =>
    have hb := backlog_observeCardinality e o
    show ((e.observeCardinality o.query o.rows o.now).observeAll observations).backlog.records = _
    rw [ih, hb]
    by_cases ha : o.accepted = true
    · have hc : (e.backlog.push o.record).capacity = e.backlog.capacity := rfl
      rw [if_pos ha, hc, records_push, rtake_append_rtake, List.filter_cons_of_pos ha,
        List.map_cons, List.append_assoc, List.singleton_append]
    · rw [if_neg ha, List.filter_cons_of_neg ha]

theorem records_observeAll_start (settings : EstimatorSettings)
    (observations : List Observation) :
    ((start settings).observeAll observations).backlog.records =
      (kept settings observations).map Observation.record := by
  rw [records_observeAll]
  unfold kept List.rtake
  rw [List.map_drop, ← List.length_map Observation.record]
  rfl

theorem accepted_of_mem_kept {settings : EstimatorSettings} {observations : List Observation}
    {o : Observation} (h : o ∈ kept settings observations) : o.accepted = true :=
  (List.mem_filter.1 (List.mem_of_mem_drop h)).2

end Estimator

/-! ## Lines of observations -/

namespace Observation

variable {o : Observation}

theorem ofLine_of_not_hasStats (hl : o.IsLegible) (hs : o.hasStats = false) :
    ExecutionRecord.ofLine .cardinality o.record.toLine = .error (.missingField "table_stats") := by
  unfold ExecutionRecord.ofLine
  rw [hl.line]
  refine ExecutionRecord.ofLogValue_reparsed_of_isNone ?_
  rw [← Option.not_isSome, Bool.not_eq_true']
  exact hs

theorem exists_ofLine_eq (ha : o.accepted = true) (hl : o.IsLegible) (hs : o.hasStats = true) :
    ∃ record, ExecutionRecord.ofLine .cardinality o.record.toLine = .ok record ∧
      record.cardinality = some o.rows := by
  unfold ExecutionRecord.ofLine
  rw [hl.line]
  exact ExecutionRecord.exists_ofLogValue_reparsed_eq ha hl.time hs

/-- **The line of an observation is usable exactly when its query came with statistics.** -/
theorem isOk_ofLine (ha : o.accepted = true) (hl : o.IsLegible) :
    (ExecutionRecord.ofLine .cardinality o.record.toLine).isOk = o.hasStats := by
  cases hs : o.hasStats with
  | false =>
    rw [ofLine_of_not_hasStats hl hs]
    rfl
  | true =>
    obtain ⟨record, hr, -⟩ := exists_ofLine_eq ha hl hs
    rw [hr]
    rfl

theorem exists_parseLine_eq (ha : o.accepted = true) (hl : o.IsLegible) (hs : o.hasStats = true)
    (number : Nat) :
    ∃ record, ExecutionRecord.parseLine .cardinality number o.record.toLine = .ok record ∧
      record.cardinality = some o.rows := by
  obtain ⟨record, hr, hrows⟩ := exists_ofLine_eq ha hl hs
  refine ⟨record, ?_, hrows⟩
  unfold ExecutionRecord.parseLine
  rw [hr]

theorem parseLine_of_not_hasStats (hl : o.IsLegible) (hs : o.hasStats = false) (number : Nat) :
    ExecutionRecord.parseLine .cardinality number o.record.toLine =
      .error (.malformedRecord number
        (LineFault.message .cardinality (.missingField "table_stats"))) := by
  unfold ExecutionRecord.parseLine
  rw [ofLine_of_not_hasStats hl hs]

end Observation

/-! ## Logs -/

namespace LogReading

variable {t : Target} {records : List ExecutionRecord}

/-- A reading counts what it is made of: a line for each record, usable or not. -/
theorem counts_read_logBytes (t : Target) (records : List ExecutionRecord) :
    (read t (Backlog.logBytes records)).lines = records.length ∧
      (read t (Backlog.logBytes records)).skipped =
        records.countP (fun r => !(ExecutionRecord.ofLine t r.toLine).isOk) ∧
      (read t (Backlog.logBytes records)).records.length =
        records.countP fun r => (ExecutionRecord.ofLine t r.toLine).isOk := by
  rw [read_logBytes]
  induction records with
  | nil => exact ⟨rfl, rfl, rfl⟩
  | cons r records ih =>
    obtain ⟨hl, hs, hr⟩ := ih
    rw [List.foldr_cons, List.length_cons]
    cases hline : ExecutionRecord.ofLine t r.toLine with
    | ok record =>
      have hu : reread t r = .usable record := by
        unfold reread
        rw [hline]
      rw [hu, List.countP_cons_of_neg (by simp [hline, Except.isOk, Except.toBool]),
        List.countP_cons_of_pos (by simp [hline, Except.isOk, Except.toBool])]
      refine ⟨congrArg (· + 1) hl, hs, ?_⟩
      show (record :: _).length = _
      rw [List.length_cons, hr]
    | error fault =>
      have hu : reread t r = .skipped := by
        unfold reread
        rw [hline]
      rw [hu, List.countP_cons_of_pos (by simp [hline, Except.isOk, Except.toBool]),
        List.countP_cons_of_neg (by simp [hline, Except.isOk, Except.toBool])]
      exact ⟨congrArg (· + 1) hl, congrArg (· + 1) hs, hr⟩

/-- A file that is there is read. -/
theorem load_of_read? {s : Storage} {path : String} {bytes : List UInt8}
    (h : s.read? path = some bytes) : load t s path = .ok (read t bytes) := by
  unfold load
  rw [if_pos (Storage.contains_of_read? h), h]

end LogReading

namespace Backlog

/-- A log that was not there holds exactly the records of the backlog. -/
theorem read?_of_flush {b b' : Backlog} {s s' : Storage} {path : String} {lines : Nat}
    (h : b.flush s path = (.ok (lines, b'), s')) (hr : b.records ≠ [])
    (hfresh : (s.withDirectories path).read? path = none) :
    lines = b.records.length ∧ s'.read? path = some (logBytes b.records) := by
  obtain ⟨hnone, -⟩ | ⟨-, written, ⟨hw, hf⟩ | ⟨-, hf⟩⟩ := b.flush_cases s path
  · exact absurd hnone hr
  · rw [hf] at h
    cases h
    rw [Storage.read?_of_append hw, hfresh]
    exact ⟨rfl, rfl⟩
  · rw [hf] at h
    cases h

end Backlog

/-! ## Fresh logs of observations -/

namespace Estimator

variable {settings : EstimatorSettings} {observations : List Observation}

theorem countP_isOk_kept (hl : ∀ o ∈ kept settings observations, o.IsLegible) (p : Bool → Bool) :
    ((kept settings observations).map Observation.record).countP
        (fun r => p (ExecutionRecord.ofLine .cardinality r.toLine).isOk) =
      (kept settings observations).countP fun o => p o.hasStats := by
  rw [List.countP_map]
  refine List.countP_congr fun o ho => ?_
  show p (ExecutionRecord.ofLine .cardinality o.record.toLine).isOk = true ↔ _
  rw [Observation.isOk_ofLine (accepted_of_mem_kept ho) (hl o ho)]

/-- **The backlog is written as one line for each observation that was kept. The line is usable when
the query came with statistics of the table and lacks them otherwise, so a fresh log of the backlog
is read with as many skipped lines as there were queries without them.** -/
theorem flushed_observations (hl : ∀ o ∈ kept settings observations, o.IsLegible) :
    ((start settings).observeAll observations).backlog.records =
        (kept settings observations).map Observation.record ∧
      (∀ o ∈ kept settings observations, ∀ number,
        (o.hasStats = true → ∃ record,
          ExecutionRecord.parseLine .cardinality number o.record.toLine = .ok record ∧
            record.cardinality = some o.rows) ∧
        (o.hasStats = false →
          ExecutionRecord.parseLine .cardinality number o.record.toLine =
            .error (.malformedRecord number
              (LineFault.message .cardinality (.missingField "table_stats"))))) ∧
      ∀ (s s' : Storage) (path : String) (lines : Nat) (b : Backlog),
        kept settings observations ≠ [] →
        (s.withDirectories path).read? path = none →
        ((start settings).observeAll observations).backlog.flush s path = (.ok (lines, b), s') →
        lines = (kept settings observations).length ∧
        ∃ reading, LogReading.load .cardinality s' path = .ok reading ∧
          reading.lines = (kept settings observations).length ∧
          reading.skipped = (kept settings observations).countP (fun o => !o.hasStats) ∧
          reading.records.length = (kept settings observations).countP fun o => o.hasStats := by
  have hrecords := records_observeAll_start settings observations
  refine ⟨hrecords, ?_, ?_⟩
  · intro o ho number
    have ha := accepted_of_mem_kept ho
    exact ⟨fun hs => Observation.exists_parseLine_eq ha (hl o ho) hs number,
      fun hs => Observation.parseLine_of_not_hasStats (hl o ho) hs number⟩
  · intro s s' path lines b hk hfresh hflush
    have hne : ((start settings).observeAll observations).backlog.records ≠ [] := by
      rw [hrecords]
      exact fun h => hk (List.map_eq_nil_iff.1 h)
    obtain ⟨hwritten, hread⟩ := Backlog.read?_of_flush hflush hne hfresh
    rw [hrecords] at hwritten hread
    obtain ⟨hlines, hskipped, hcount⟩ := LogReading.counts_read_logBytes .cardinality
      ((kept settings observations).map Observation.record)
    refine ⟨by rw [hwritten, List.length_map], _, LogReading.load_of_read? hread, ?_, ?_, ?_⟩
    · rw [hlines, List.length_map]
    · rw [hskipped, countP_isOk_kept hl not]
    · have hc := countP_isOk_kept hl id
      simp only [id_eq] at hc
      rw [hcount, hc]

/-- A query on a table with known statistics that returned five rows. -/
def tableObservation : Observation :=
  ⟨{ tableStats := some { rowCount := 10, distinctCount := 2 } }, 5.0, .ofParts 19783 0 0⟩

/-- A query on an unknown table that returned five rows. -/
def bareObservation : Observation :=
  ⟨{}, 5.0, .ofParts 19783 0 0⟩

theorem tableObservation_isLegible : tableObservation.IsLegible where
  line := by
    unfold ExecutionRecord.toLine
    rw [Json.parse?_compact]
    decide +kernel
  time := by decide +kernel

theorem bareObservation_isLegible : bareObservation.IsLegible where
  line := by
    unfold ExecutionRecord.toLine
    rw [Json.parse?_compact]
    decide +kernel
  time := by decide +kernel

theorem flushed_observations_of_table_and_bare :
    (∃ record, ExecutionRecord.parseLine .cardinality 1 tableObservation.record.toLine =
      .ok record ∧ record.cardinality = some 5.0) ∧
    ∃ b s', ((start {}).observeAll [tableObservation, bareObservation]).backlog.flush {}
        "log.jsonl" = (.ok (2, b), s') ∧
      ∃ reading, LogReading.load .cardinality s' "log.jsonl" = .ok reading ∧
        reading.lines = 2 ∧ reading.skipped = 1 ∧ reading.records.length = 1 := by
  have hk : kept {} [tableObservation, bareObservation] = [tableObservation, bareObservation] := rfl
  have hl : ∀ o ∈ kept {} [tableObservation, bareObservation], o.IsLegible := by
    rw [hk]
    intro o ho
    simp only [List.mem_cons, List.not_mem_nil, or_false] at ho
    rcases ho with rfl | rfl
    · exact tableObservation_isLegible
    · exact bareObservation_isLegible
  have hok : ∀ bytes, (({} : Storage).append "log.jsonl" bytes).1 = true := fun _ => rfl
  obtain ⟨-, hlines, hlog⟩ := flushed_observations hl
  rw [hk] at hlines hlog
  constructor
  · exact (hlines tableObservation (by simp) 1).1 rfl
  · obtain ⟨lines, b, s', hf⟩ := Backlog.exists_flush_eq (hok _)
    obtain ⟨rfl, hreading⟩ := hlog {} s' "log.jsonl" lines b (by simp) (by decide +kernel) hf
    exact ⟨b, s', hf, hreading⟩

/-- A valid observation whose line is not usable. -/
theorem bareObservation_line_refused :
    bareObservation.accepted = true ∧
      ExecutionRecord.parseLine .cardinality 1 bareObservation.record.toLine =
        .error (.malformedRecord 1 (LineFault.message .cardinality (.missingField "table_stats"))) := by
  constructor
  · decide +kernel
  · exact Observation.parseLine_of_not_hasStats bareObservation_isLegible rfl 1

end Estimator

end QueryForecast
