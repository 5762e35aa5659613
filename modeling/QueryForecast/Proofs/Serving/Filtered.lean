import QueryForecast.Proofs.Log.Flushed
import QueryForecast.Proofs.Log.Legible
import QueryForecast.Proofs.Time.Texts

/-!
# Observed filters can be trained on

The profile of an observed filter is recorded as it was given: its categories may be any texts, and
its measures need not be finite. Such a measure is written as `null`, which is read as zero. So the
line of the record is always usable for selectivities, and those measures are all that changes.

* `ExecutionRecord.ofLine_filterRecord` — the line of a record gives the record with finite measures.
* `Estimator.exists_records_observeFilter` — the record of a filter is the last one of the backlog.
* `Estimator.observed_filters_are_usable` — what is read from the log that the backlog is written as.
-/

namespace QueryForecast

open Json Time

/-! ## Lines of observed filters -/

namespace ExecutionRecord

open Estimator (filterRecord)

variable (p : FilterProfile) (fraction : Float) (preLatency postLatency : Option Nat) (now : Timestamp)

theorem mem_entries_filterRecord :
    ("features", p.toJson) ∈ (filterRecord p fraction preLatency postLatency now).entries ∧
      ("actual_selectivity", ofFloat fraction) ∈
        (filterRecord p fraction preLatency postLatency now).entries :=
  ⟨mem_entries.2 (.inl (Query.mem_toEntries.2 (by simp [filterRecord]))),
    mem_entries.2 (.inr (.inr (.inl ⟨fraction, rfl, rfl⟩)))⟩

/-- A record of a filter has what is needed for selectivities. -/
theorem missingField?_filterRecord :
    missingField? .selectivity (filterRecord p fraction preLatency postLatency now).printed =
      none := by
  obtain ⟨hfeatures, hfraction⟩ := mem_entries_filterRecord p fraction preLatency postLatency now
  have hm : ∀ name ∈ Target.requiredFields .selectivity,
      (filterRecord p fraction preLatency postLatency now).printed.has name = true := by
    intro name hm
    rw [has_printed, Entries.has_eq_true_iff]
    simp only [Target.requiredFields, List.mem_cons, List.not_mem_nil, or_false] at hm
    rcases hm with rfl | rfl
    · exact List.mem_map_of_mem hfeatures
    · exact List.mem_map_of_mem hfraction
  unfold missingField?
  rw [Option.map_eq_none_iff, List.find?_eq_none]
  intro name h
  rw [hm name h]
  decide

theorem partFault?_filterRecord :
    partFault? .selectivity (filterRecord p fraction preLatency postLatency now).printed = none := by
  unfold partFault?
  dsimp only
  rw [get?_printed (mem_entries_filterRecord p fraction preLatency postLatency now).1]
  rfl

variable {fraction now}

/-- **The line of a record of a filter gives the record with finite measures.** -/
theorem ofLine_filterRecord (hf : Target.selectivity.accepts fraction = true) (hn : now.IsInstant) :
    ofLine .selectivity (filterRecord p fraction preLatency postLatency now).toLine =
      .ok (filterRecord p.returned fraction preLatency postLatency now) := by
  have hcarried : ∀ v ∈ (filterRecord p fraction preLatency postLatency now).query.carried,
      Legible (Parser.maxDepth - 3) v := fun v hv => (nomatch hv)
  have hfinite : (filterRecord p fraction preLatency postLatency now).FiniteOutcomes := by
    refine ⟨fun _ hm => (nomatch hm), fun x hm => ?_, fun _ hm => (nomatch hm)⟩
    rw [← Option.some.inj hm]
    exact isFinite_of_accepts hf
  have hparsed : Timestamp.parse? now.text = some now := Timestamp.parse?_text hn
  have htime : ∀ t ∈ (filterRecord p fraction preLatency postLatency now).query.timestamp,
      (Timestamp.parse? t.text).isSome = true := by
    intro t ht
    rw [← Option.some.inj ht, hparsed]
    rfl
  have hreturned : (filterRecord p fraction preLatency postLatency now).returned reparsed =
      filterRecord p.returned fraction preLatency postLatency now := by
    unfold returned Query.returned filterRecord
    simp only [Option.bind_some, hparsed, Option.map_some, List.map_nil]
  unfold ofLine
  rw [parse?_toLine hcarried]
  show ofLogValue .selectivity (reparsed _) = _
  rw [ofLogValue_reparsed_eq (missingField?_filterRecord p fraction preLatency postLatency now)
    (partFault?_filterRecord p fraction preLatency postLatency now) hfinite htime rfl hf, hreturned]

end ExecutionRecord

/-! ## The backlog -/

namespace Backlog

/-- A new record is the last one, for there is room for one at least. -/
theorem exists_records_push (b : Backlog) (record : ExecutionRecord) :
    ∃ older, (b.push record).records = older ++ [record] := by
  have hc := b.capacity_pos
  refine ⟨b.records.drop (b.records.length + 1 - b.capacity), ?_⟩
  show (b.records ++ [record]).drop (b.records.length + 1 - b.capacity) = _
  rw [List.drop_append_of_le_length (by omega)]

end Backlog

namespace Estimator

variable {fraction : Float} {now : Timestamp}

theorem exists_records_observeFilter (hf : Target.selectivity.accepts fraction = true)
    (e : Estimator) (p : FilterProfile) (cardinality : UInt64) (preLatency postLatency : Option Nat) :
    ∃ older, (e.observeFilter p fraction cardinality preLatency postLatency now).backlog.records =
      older ++ [filterRecord p fraction preLatency postLatency now] := by
  unfold observeFilter
  rw [if_pos hf]
  exact e.backlog.exists_records_push _

/-- **What is observed of filters can be trained on.** Whatever the profile of a filter, a valid
fraction is recorded, and the line of the record is usable for selectivities. It gives the record that
waits in the backlog, with zeros for the measures that are not finite. So it is the last one that is
read from the log of the backlog. -/
theorem observed_filters_are_usable (hf : Target.selectivity.accepts fraction = true)
    (hn : now.IsInstant) (e : Estimator) (p : FilterProfile) (cardinality : UInt64)
    (preLatency postLatency : Option Nat) :
    let backlog := (e.observeFilter p fraction cardinality preLatency postLatency now).backlog
    let record := filterRecord p fraction preLatency postLatency now
    let usable := filterRecord p.returned fraction preLatency postLatency now
    backlog.records.getLast? = some record ∧
      (∀ number, ExecutionRecord.parseLine .selectivity number record.toLine = .ok usable) ∧
      (LogReading.read .selectivity (Backlog.logBytes backlog.records)).records.getLast? =
        some usable := by
  intro backlog record usable
  obtain ⟨older, ho⟩ : ∃ older, backlog.records = older ++ [record] :=
    exists_records_observeFilter hf e p cardinality preLatency postLatency
  have hline : ExecutionRecord.ofLine .selectivity record.toLine = .ok usable :=
    ExecutionRecord.ofLine_filterRecord p preLatency postLatency hf hn
  refine ⟨?_, fun number => ?_, ?_⟩
  · rw [ho, List.getLast?_concat]
  · unfold ExecutionRecord.parseLine
    rw [hline]
  · rw [ho, LogReading.records_read_logBytes, List.filterMap_append,
      List.filterMap_cons_some (by rw [hline]; rfl), List.filterMap_nil, List.getLast?_concat]

/-- A profile with a quotation mark in its property, a norm that is not a number and an infinite
latency. -/
def oddProfile : FilterProfile where
  property := "height \"max\""
  operator := "<"
  complexity := 2
  pastMedian := 0.25
  vectorNorm := 0.0 / 0.0
  latencyHigh := 1.0 / 0.0

theorem observed_filters_are_usable_of_oddProfile :
    let now := Timestamp.ofParts 19783 3661 5000000
    let backlog := ((start {}).observeFilter oddProfile 0.5 7 (some 20) (some 10) now).backlog
    let plain : FilterProfile :=
      { property := "height \"max\"", operator := "<", complexity := 2, pastMedian := 0.25 }
    let usable := filterRecord plain 0.5 (some 20) (some 10) now
    oddProfile.vectorNorm.isFinite = false ∧
      backlog.records.getLast? = some (filterRecord oddProfile 0.5 (some 20) (some 10) now) ∧
      (∀ number, ExecutionRecord.parseLine .selectivity number
        (filterRecord oddProfile 0.5 (some 20) (some 10) now).toLine = .ok usable) ∧
      (LogReading.read .selectivity (Backlog.logBytes backlog.records)).records.getLast? =
        some usable := by
  have hf : Target.selectivity.accepts 0.5 = true := by decide +kernel
  have hn : (Timestamp.ofParts 19783 3661 5000000).IsInstant :=
    ⟨by decide +kernel, by decide⟩
  have hp : oddProfile.returned =
      { property := "height \"max\"", operator := "<", complexity := 2, pastMedian := 0.25 } := by
    decide +kernel
  have h := observed_filters_are_usable hf hn (start {}) oddProfile 7 (some 20) (some 10)
  rw [hp] at h
  exact ⟨by decide +kernel, h⟩

end Estimator

end QueryForecast
