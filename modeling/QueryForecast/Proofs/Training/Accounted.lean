import QueryForecast.Proofs.Log.Counted
import QueryForecast.Proofs.Log.Flushed
import QueryForecast.Proofs.Training.Fitting

/-!
# From a log to a report

What is read from a log can be trained on: its records have valid outcomes, and finite features. So a
run over a log depends on nothing but the number of its accepted lines, and its report accounts for
all of them. A log is held in an address space of 64 bits, so that a list in it is never too long to
be counted in a double.

* `TrainingPlan.train_of_valid` — a run over records with valid outcomes and finite features.
* `TrainingPlan.log_is_accounted_for` — the counts of a log, and what a run over it comes to.
-/

namespace QueryForecast.TrainingPlan

open Time

variable {plan : TrainingPlan} {records : List ExecutionRecord} {bytes : List UInt8}

/-- A run over enough records goes through when they all have valid outcomes and finite features, and
its report counts every one of them. -/
theorem train_of_valid (h : plan.fault? = none)
    (hv : ∀ r ∈ records, ∃ y, r.outcome? plan.target = some y)
    (hq : ∀ r ∈ records, r.query.Readable (2 ^ 64)) (hn : plan.requiredRecords ≤ records.length)
    (now : Timestamp) :
    ∃ model report, plan.train records now = .ok (model, report) ∧
      report.used = records.length ∧ report.skipped = 0 ∧
      report.trainingExamples + report.heldOutExamples = records.length ∧
      1 ≤ report.trainingExamples ∧ 1 ≤ report.heldOutExamples := by
  have hu := length_usable hv
  have h2 : 2 ≤ (plan.usable records).length :=
    (Nat.le_max_right _ _).trans (hn.trans hu.ge)
  obtain ⟨ht, hh, hsum⟩ := length_parts h2
  obtain ⟨s, hs, -, -⟩ := Dataset.exists_ofRecords_eq plan.target (plan.usable records)
  have hk : (plan.trainingPart records).findIdx? (fun r => !r.1.query.isMeasured plan.target) =
      none := by
    rw [List.findIdx?_eq_none_iff]
    intro r hr
    have hm := (mem_usable.1 (Dataset.mem_of_mem_pick hr)).1
    rw [(hq r.1 hm).isMeasured, Bool.not_true]
  have he := train_eq h (hn.trans hu.ge) (fun _ r hr => (hq r hr).addressable (Nat.le_refl _)) hs now
  rw [hk] at he
  refine ⟨_, _, he, hu, ?_, hsum.trans hu, ht, hh⟩
  show records.length - (plan.usable records).length = 0
  omega

/-- **The report of a log accounts for its lines.** Reading a log counts its lines that are not blank,
and those of them that are accepted; the others are skipped. A run over what was read fails exactly
when fewer lines are accepted than it needs, and says how many there are. Otherwise it succeeds, uses
every accepted line and skips none; each is trained on or held out, and neither part is empty. The
memory for the trees of the plan is taken to be there. -/
theorem log_is_accounted_for (h : plan.fault? = none) (hb : bytes.length ≤ 2 ^ 64)
    (now : Timestamp) :
    let reading := LogReading.read plan.target bytes
    let accepted := LogReading.acceptedCount plan.target bytes
    reading.lines = LogReading.nonBlankCount bytes ∧
      reading.records.length = accepted ∧
      reading.lines = accepted + reading.skipped ∧
      (accepted < max plan.minRecords 2 →
        plan.train reading.records now =
          .error (.insufficientData accepted (max plan.minRecords 2))) ∧
      (max plan.minRecords 2 ≤ accepted →
        ∃ model report, plan.train reading.records now = .ok (model, report) ∧
          report.used = accepted ∧ report.skipped = 0 ∧
          report.trainingExamples + report.heldOutExamples = accepted ∧
          1 ≤ report.trainingExamples ∧ 1 ≤ report.heldOutExamples) := by
  intro reading accepted
  obtain ⟨hl, ha, hs⟩ := LogReading.counts_read plan.target bytes
  have hv : ∀ r ∈ reading.records, ∃ y, r.outcome? plan.target = some y :=
    fun r hr => (LogReading.readable_of_mem_read hr).2
  have hq : ∀ r ∈ reading.records, r.query.Readable (2 ^ 64) :=
    fun r hr => (LogReading.readable_of_mem_read hr).1.mono hb
  have hu : (plan.usable reading.records).length = accepted := (length_usable hv).trans ha
  refine ⟨hl, ha, ?_, ?_, ?_⟩
  · rw [← show reading.records.length = accepted from ha]
    exact hs
  · intro hn
    have hf : plan.train reading.records now = _ := train_of_few h (hu ▸ hn) now
    rwa [hu] at hf
  · intro hn
    have ht := train_of_valid h hv hq (hn.trans (show accepted ≤ _ from ha.ge)) now
    rwa [show reading.records.length = accepted from ha] at ht

/-- Three observed filters and one query that was observed without a filter. -/
def mixedRecords : List ExecutionRecord :=
  bareRecords [0.5, 0.25, 0.75] ++ [.ofCardinality {} 5.0]

theorem length_logBytes_mixedRecords : (Backlog.logBytes mixedRecords).length ≤ 2 ^ 64 := by
  unfold Backlog.logBytes ExecutionRecord.toLine Json.compact
  simp only [bytesOf_eq_flatMap, String.toList_append, String.toList_ofList]
  decide +kernel

/-- For selectivities the last line is of no use. -/
theorem countP_isOk_mixedRecords :
    mixedRecords.countP (fun r => (ExecutionRecord.ofLine .selectivity r.toLine).isOk) = 3 := by
  unfold ExecutionRecord.ofLine ExecutionRecord.toLine
  simp only [Json.parse?_compact]
  decide +kernel

theorem acceptedCount_mixedRecords :
    LogReading.acceptedCount .selectivity (Backlog.logBytes mixedRecords) = 3 := by
  have hr := (LogReading.counts_read_logBytes .selectivity mixedRecords).2.2
  have ha := (LogReading.counts_read .selectivity (Backlog.logBytes mixedRecords)).accepted
  exact ha.symm.trans (hr.trans countP_isOk_mixedRecords)

theorem mixed_log_is_accounted_for :
    leafPlan.fault? = none ∧ (Backlog.logBytes mixedRecords).length ≤ 2 ^ 64 ∧
      (LogReading.read .selectivity (Backlog.logBytes mixedRecords)).records.length = 3 ∧
      ∃ model report,
        leafPlan.train (LogReading.read .selectivity (Backlog.logBytes mixedRecords)).records
            (.ofParts 19783 0 0) = .ok (model, report) ∧
          report.used = 3 ∧ report.skipped = 0 := by
  have hf : leafPlan.fault? = none := by decide +kernel
  obtain ⟨-, hr, -, -, ht⟩ :=
    log_is_accounted_for hf length_logBytes_mixedRecords (.ofParts 19783 0 0)
  obtain ⟨model, report, ht, hu, hs, -⟩ :=
    ht (show 2 ≤ LogReading.acceptedCount .selectivity (Backlog.logBytes mixedRecords) by
      rw [acceptedCount_mixedRecords]
      decide)
  exact ⟨hf, length_logBytes_mixedRecords, hr.trans acceptedCount_mixedRecords, model, report, ht,
    hu.trans acceptedCount_mixedRecords, hs⟩

end QueryForecast.TrainingPlan
