import QueryForecast.Log.Line
import QueryForecast.Storage.Writing

/-!
# The backlog

Outcomes that were observed while serving wait in a bounded queue until they are written to an
execution log. A full backlog drops its oldest record for a new one and counts what it dropped.
-/

namespace QueryForecast

/-- Observed records, oldest first, at most `capacity` of them. -/
structure Backlog where
  capacity : Nat
  records : List ExecutionRecord := []
  /-- The records accepted so far, also those that were dropped. -/
  accepted : Nat := 0
  /-- The records that were dropped because the backlog was full. -/
  dropped : Nat := 0
  capacity_pos : 0 < capacity := by decide
  length_le : records.length ≤ capacity := by decide

namespace Backlog

/-- The capacity of a backlog that is not given another. -/
def defaultCapacity : Nat := 10000

/-- An empty backlog; it holds at least one record. -/
def empty (capacity : Nat) : Backlog where
  capacity := max capacity 1
  capacity_pos := by omega
  length_le := Nat.zero_le _

/-- The backlog with one more record. -/
def push (b : Backlog) (record : ExecutionRecord) : Backlog where
  capacity := b.capacity
  records := (b.records ++ [record]).drop (b.records.length + 1 - b.capacity)
  accepted := b.accepted + 1
  dropped := b.dropped + (b.records.length + 1 - b.capacity)
  capacity_pos := b.capacity_pos
  length_le := by
    rw [List.length_drop, List.length_append, List.length_singleton]
    omega

/-- The backlog after its records have been taken out. -/
def cleared (b : Backlog) : Backlog where
  capacity := b.capacity
  records := []
  accepted := b.accepted
  dropped := b.dropped
  capacity_pos := b.capacity_pos
  length_le := Nat.zero_le _

/-- Takes all records out. -/
def drain (b : Backlog) : List ExecutionRecord × Backlog :=
  (b.records, b.cleared)

/-- The lines of an execution log with the given records. -/
def logBytes (records : List ExecutionRecord) : List UInt8 :=
  records.flatMap fun record => bytesOf (record.toLine ++ "\n")

/-- The backlog with records put back in front of its own. As when a record is added, the oldest ones
are dropped and counted when they are more than it holds. -/
def putBack (b : Backlog) (records : List ExecutionRecord) : Backlog where
  capacity := b.capacity
  records := (records ++ b.records).drop (records.length + b.records.length - b.capacity)
  accepted := b.accepted
  dropped := b.dropped + (records.length + b.records.length - b.capacity)
  capacity_pos := b.capacity_pos
  length_le := by
    rw [List.length_drop, List.length_append]
    omega

/-- Takes all records out and adds them to the log at a path, which is not touched when there are
none. A success comes with the number of lines that were written. When the log cannot be written, the
records are put back, and the backlog with them comes with the failure. Either way, what is left of
the storage. -/
def flush (b : Backlog) (s : Storage) (path : String) :
    Except (Failure × Backlog) (Nat × Backlog) × Storage :=
  let (records, rest) := b.drain
  if records.isEmpty then (.ok (0, rest), s)
  else
    match s.append path (logBytes records) with
    | (true, s) => (.ok (records.length, rest), s)
    | (false, s) => (.error (.fileAccess, rest.putBack records), s)

/-- Putting records back into a backlog that was emptied for them restores it. -/
theorem putBack_cleared (b : Backlog) : b.cleared.putBack b.records = b := by
  have hz : b.records.length + b.cleared.records.length - b.cleared.capacity = 0 :=
    Nat.sub_eq_zero_of_le b.length_le
  obtain ⟨capacity, records, accepted, dropped, hc, hl⟩ := b
  simp only [putBack, mk.injEq]
  rw [hz]
  exact ⟨rfl, List.append_nil records, rfl, rfl⟩

/-- All that a flush can do: nothing when there are no records, or else add their lines to the log, or
fail with everything where it was. -/
theorem flush_cases (b : Backlog) (s : Storage) (path : String) :
    (b.records = [] ∧ b.flush s path = (.ok (0, b.cleared), s)) ∨
    b.records ≠ [] ∧ ∃ s',
      (s.append path (logBytes b.records) = (true, s') ∧
        b.flush s path = (.ok (b.records.length, b.cleared), s')) ∨
      (s.append path (logBytes b.records) = (false, s') ∧
        b.flush s path = (.error (.fileAccess, b), s')) := by
  unfold flush drain
  dsimp only
  by_cases hr : b.records = []
  · exact .inl ⟨hr, if_pos (by rw [hr]; rfl)⟩
  · rw [if_neg (by simpa using hr)]
    obtain ⟨done, s'⟩ := s.append path (logBytes b.records)
    refine .inr ⟨hr, s', ?_⟩
    cases done with
    | true => exact .inl ⟨rfl, rfl⟩
    | false =>
      refine .inr ⟨rfl, ?_⟩
      dsimp only
      rw [putBack_cleared]

/-- A log that can be written is written. -/
theorem exists_flush_eq {b : Backlog} {s : Storage} {path : String}
    (h : (s.append path (logBytes b.records)).1 = true) :
    ∃ lines b' s', b.flush s path = (.ok (lines, b'), s') := by
  obtain ⟨-, hf⟩ | ⟨-, s', ⟨-, hf⟩ | ⟨hs, -⟩⟩ := b.flush_cases s path
  · exact ⟨_, _, _, hf⟩
  · exact ⟨_, _, _, hf⟩
  · rw [hs] at h
    cases h

end Backlog

end QueryForecast
