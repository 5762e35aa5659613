import QueryForecast.Log.Backlog
import QueryForecast.Proofs.Storage.Appending

/-!
# The backlog loses no record that it does not count

Records enter the backlog one at a time. They leave it when they are handed out, to a caller or to a
log, and when there is no room for them. Here every run of calls is read as a run of a plain queue,
from which only the oldest element can leave, and is dropped only when the queue is over its bound.

* `QueueRun` — what enters a queue stands last in it, what leaves it was the oldest, and nothing is
  dropped while there is room.
* `QueueRun.entered_eq` — what entered a queue is what left it, in the same order, and what is in it.
* `Backlog.Written` — the lines of some records stand at the end of a log.
* `Backlog.written_answer` — a flush hands out the records whose lines it has written.
* `Backlog.flush_error` — a flush that fails puts everything back where it was.
* `Backlog.Call.queueRun_events` — a call is a run of the queue.
* `Backlog.Traced` — what a run of calls keeps; `Traced.step`, `traced_ofCalls` are its step and run
  lemmas.
* `Backlog.records_are_conserved` — where all records of a run are, after every call.
-/

namespace QueryForecast

/-! ## Queues -/

/-- Why an element leaves a queue. -/
inductive Departure where
  | handedOut
  | dropped
  deriving DecidableEq, Repr

/-- What happens to a queue. -/
inductive QueueEvent (α : Type) where
  | enters (x : α)
  | leaves (why : Departure) (x : α)

/-- The events lead from one queue to another: what enters stands last, only the first can leave, and
it is dropped only when there are more than `bound`. -/
inductive QueueRun {α : Type} (bound : Nat) : List α → List (QueueEvent α) → List α → Prop where
  | done (queue : List α) : QueueRun bound queue [] queue
  | enters {queue final : List α} {x : α} {events : List (QueueEvent α)}
      (rest : QueueRun bound (queue ++ [x]) events final) :
      QueueRun bound queue (.enters x :: events) final
  | leaves {queue final : List α} {why : Departure} {x : α} {events : List (QueueEvent α)}
      (full : why = .dropped → bound < (x :: queue).length)
      (rest : QueueRun bound queue events final) :
      QueueRun bound (x :: queue) (.leaves why x :: events) final

namespace QueueEvent

variable {α : Type}

/-- What entered, in the order of the events. -/
def entered : List (QueueEvent α) → List α
  | [] => []
  | .enters x :: events => x :: entered events
  | .leaves _ _ :: events => entered events

/-- What left, and why, in the order of the events. -/
def departures : List (QueueEvent α) → List (Departure × α)
  | [] => []
  | .enters _ :: events => departures events
  | .leaves why x :: events => (why, x) :: departures events

/-- What left for the given reason, in the order of the events. -/
def left (why : Departure) (events : List (QueueEvent α)) : List α :=
  ((departures events).filter fun d => d.1 == why).map (·.2)

@[simp] theorem entered_append (events more : List (QueueEvent α)) :
    entered (events ++ more) = entered events ++ entered more := by
  induction events with
  | nil => rfl
  | cons event events ih => cases event <;> simp [entered, ih]

@[simp] theorem departures_append (events more : List (QueueEvent α)) :
    departures (events ++ more) = departures events ++ departures more := by
  induction events with
  | nil => rfl
  | cons event events ih => cases event <;> simp [departures, ih]

@[simp] theorem left_append (why : Departure) (events more : List (QueueEvent α)) :
    left why (events ++ more) = left why events ++ left why more := by
  simp [left]

@[simp] theorem entered_map_leaves (why : Departure) (xs : List α) :
    entered (xs.map (.leaves why)) = [] := by
  induction xs with
  | nil => rfl
  | cons x xs ih => exact ih

@[simp] theorem departures_map_leaves (why : Departure) (xs : List α) :
    departures (xs.map (.leaves why)) = xs.map (why, ·) := by
  induction xs with
  | nil => rfl
  | cons x xs ih => exact congrArg ((why, x) :: ·) ih

@[simp] theorem left_map_leaves (why why' : Departure) (xs : List α) :
    left why' (xs.map (.leaves why)) = if why = why' then xs else [] := by
  unfold left
  rw [departures_map_leaves, List.filter_map, List.map_map]
  by_cases h : why = why'
  · subst h
    simp [Function.comp_def]
  · simp [Function.comp_def, h]

theorem length_departures (events : List (QueueEvent α)) :
    (departures events).length =
      (left .handedOut events).length + (left .dropped events).length := by
  unfold left
  rw [List.length_map, List.length_map]
  induction departures events with
  | nil => rfl
  | cons d ds ih =>
    obtain ⟨why, x⟩ := d
    cases why <;> simp [ih] <;> omega

end QueueEvent

namespace QueueRun

open QueueEvent

variable {α : Type} {bound : Nat} {first second third : List α} {events more : List (QueueEvent α)}

theorem append (h : QueueRun bound first events second) (h' : QueueRun bound second more third) :
    QueueRun bound first (events ++ more) third := by
  induction h with
  | done queue => exact h'
  | enters rest ih => exact .enters (ih h')
  | leaves full rest ih => exact .leaves full (ih h')

/-- The oldest elements can leave one after the other, also by being dropped when those that stay reach
the bound. -/
theorem map_leaves {why : Departure} {xs queue : List α}
    (h : why = .dropped → xs = [] ∨ bound ≤ queue.length) :
    QueueRun bound (xs ++ queue) (xs.map (.leaves why)) queue := by
  induction xs with
  | nil => exact .done queue
  | cons x xs ih =>
    have hq : why = .dropped → bound ≤ queue.length := fun hw =>
      (h hw).resolve_left (List.cons_ne_nil x xs)
    refine .leaves (fun hw => ?_) (ih fun hw => .inr (hq hw))
    have := hq hw
    show bound < (xs ++ queue).length + 1
    rw [List.length_append]
    omega

/-- **What was in a queue and what entered it is what left it, in the same order, and what is in
it.** -/
theorem entered_eq (h : QueueRun bound first events second) :
    first ++ entered events = (departures events).map (·.2) ++ second := by
  induction h with
  | done queue => simp [entered, departures]
  | @enters queue final x events rest ih =>
    rw [entered, departures, ← ih]
    simp
  | @leaves queue final why x events full rest ih =>
    rw [entered, departures, List.map_cons, List.cons_append, List.cons_append, ih]

end QueueRun

/-! ## Calls of a backlog -/

namespace Backlog

open QueueEvent

/-- **A flush that fails leaves the backlog as it was.** -/
theorem flush_error {b after : Backlog} {s s' : Storage} {path : String} {failure : Failure}
    (h : b.flush s path = (.error (failure, after), s')) : after = b := by
  obtain ⟨-, hf⟩ | ⟨-, written, ⟨-, hf⟩ | ⟨-, hf⟩⟩ := b.flush_cases s path
  · rw [hf] at h
    cases h
  · rw [hf] at h
    cases h
  · rw [hf] at h
    cases h
    rfl

theorem flush_ok {b after : Backlog} {s s' : Storage} {path : String} {lines : Nat}
    (h : b.flush s path = (.ok (lines, after), s')) :
    lines = b.records.length ∧ after = b.cleared := by
  obtain ⟨hr, hf⟩ | ⟨-, written, ⟨-, hf⟩ | ⟨-, hf⟩⟩ := b.flush_cases s path
  · rw [hf] at h
    cases h
    rw [hr]
    exact ⟨rfl, rfl⟩
  · rw [hf] at h
    cases h
    exact ⟨rfl, rfl⟩
  · rw [hf] at h
    cases h

/-- The log at a path has the lines of some records more at its end. A log of no records more is not
touched. -/
structure Written (records : List ExecutionRecord) (path : String) (s s' : Storage) : Prop where
  untouched : records = [] → s' = s
  appended : records ≠ [] →
    s'.read? path = some (((s.withDirectories path).read? path).getD [] ++ logBytes records)

/-- A call of a backlog. A flush comes with the storage that it finds, which decides whether it
succeeds. -/
inductive Call where
  | push (record : ExecutionRecord)
  | drain
  | flush (s : Storage) (path : String)
  | snapshot

namespace Call

/-- What a call hands out, and the backlog after it. A flush hands out the oldest records, as many as
it says that it has written, and none when it fails; a snapshot is a copy. -/
def answer (b : Backlog) : Call → List ExecutionRecord × Backlog
  | .push record => ([], b.push record)
  | .drain => b.drain
  | .flush s path =>
    match (b.flush s path).1 with
    | .ok (lines, after) => (b.records.take lines, after)
    | .error (_, after) => ([], after)
  | .snapshot => ([], b)

/-- A flush that succeeds hands out all records. -/
theorem answer_flush {b after : Backlog} {s s' : Storage} {path : String} {lines : Nat}
    (h : b.flush s path = (.ok (lines, after), s')) :
    ((flush s path).answer b).1 = b.records := by
  obtain ⟨hl, -⟩ := flush_ok h
  unfold answer
  dsimp only
  rw [h, hl]
  exact List.take_length

/-- The record that a call brings. -/
def pushed : Call → List ExecutionRecord
  | .push record => [record]
  | _ => []

/-- What a call does to the queue of records. -/
def events (b : Backlog) (c : Call) : List (QueueEvent ExecutionRecord) :=
  match c with
  | .push record =>
    .enters record ::
      ((b.records ++ [record]).take ((b.push record).dropped - b.dropped)).map (.leaves .dropped)
  | c => (c.answer b).1.map (.leaves .handedOut)

/-- What a call leaves: an unchanged backlog, or an empty one after all records were handed out. -/
theorem answer_cases (b : Backlog) (c : Call) :
    (∃ record, c = .push record) ∨
      (c.pushed = [] ∧ c.events b = (c.answer b).1.map (.leaves .handedOut)) ∧
        (c.answer b = ([], b) ∨ c.answer b = (b.records, b.cleared)) := by
  cases c with
  | push record => exact .inl ⟨record, rfl⟩
  | drain => exact .inr ⟨⟨rfl, rfl⟩, .inr rfl⟩
  | snapshot => exact .inr ⟨⟨rfl, rfl⟩, .inl rfl⟩
  | flush s path =>
    refine .inr ⟨⟨rfl, rfl⟩, ?_⟩
    unfold answer
    dsimp only
    cases hf : b.flush s path with
    | mk result s' =>
      cases result with
      | ok written =>
        obtain ⟨lines, after⟩ := written
        obtain ⟨rfl, rfl⟩ := flush_ok hf
        exact .inr (congrArg (·, b.cleared) List.take_length)
      | error fault =>
        obtain ⟨failure, after⟩ := fault
        exact .inl (by rw [flush_error hf])

/-- A call that brings no record leaves the capacity and the counters. -/
theorem counters_answer {b : Backlog} {c : Call}
    (h : c.answer b = ([], b) ∨ c.answer b = (b.records, b.cleared)) :
    (c.answer b).2.capacity = b.capacity ∧ (c.answer b).2.accepted = b.accepted ∧
      (c.answer b).2.dropped = b.dropped := by
  rcases h with h | h
  · rw [h]
    exact ⟨rfl, rfl, rfl⟩
  · rw [h]
    exact ⟨rfl, rfl, rfl⟩

theorem dropped_push (b : Backlog) (record : ExecutionRecord) :
    (b.push record).dropped - b.dropped = b.records.length + 1 - b.capacity := by
  show b.dropped + _ - b.dropped = _
  omega

/-- **A call is a run of the queue**: a new record enters behind the others, and then the oldest ones
leave until the rest has room. -/
theorem queueRun_events (b : Backlog) (c : Call) :
    QueueRun b.capacity b.records (c.events b) (c.answer b).2.records := by
  obtain ⟨record, rfl⟩ | ⟨⟨-, he⟩, ha⟩ := answer_cases b c
  · refine .enters ?_
    have h := @QueueRun.map_leaves _ b.capacity .dropped
      ((b.records ++ [record]).take ((b.push record).dropped - b.dropped))
      ((b.records ++ [record]).drop ((b.push record).dropped - b.dropped)) fun _ => ?_
    · rw [List.take_append_drop] at h
      rw [dropped_push] at h ⊢
      exact h
    · -- What is dropped is what exceeds the capacity, so the capacity is what stays.
      rw [dropped_push, List.take_eq_nil_iff, List.length_drop, List.length_append,
        List.length_singleton]
      omega
  · rw [he]
    rcases ha with ha | ha
    · rw [ha]
      exact .done b.records
    · rw [ha]
      have h := @QueueRun.map_leaves _ b.capacity .handedOut b.records [] nofun
      rwa [List.append_nil] at h

theorem entered_events (b : Backlog) (c : Call) : entered (c.events b) = c.pushed := by
  obtain ⟨record, rfl⟩ | ⟨⟨hp, he⟩, -⟩ := answer_cases b c
  · exact congrArg (record :: ·) (entered_map_leaves _ _)
  · rw [he, hp, entered_map_leaves]

theorem left_handedOut_events (b : Backlog) (c : Call) :
    left .handedOut (c.events b) = (c.answer b).1 := by
  obtain ⟨record, rfl⟩ | ⟨⟨-, he⟩, -⟩ := answer_cases b c
  · exact left_map_leaves .dropped .handedOut _
  · rw [he, left_map_leaves, if_pos rfl]

theorem length_left_dropped_events (b : Backlog) (c : Call) :
    b.dropped + (left .dropped (c.events b)).length = (c.answer b).2.dropped := by
  obtain ⟨record, rfl⟩ | ⟨⟨-, he⟩, ha⟩ := answer_cases b c
  · have hd := left_map_leaves .dropped .dropped
      ((b.records ++ [record]).take ((b.push record).dropped - b.dropped))
    have hl : left .dropped ((Call.push record).events b) =
        (b.records ++ [record]).take ((b.push record).dropped - b.dropped) := hd
    have hc := b.capacity_pos
    rw [hl, dropped_push, List.length_take, List.length_append, List.length_singleton,
      Nat.min_eq_left (by omega)]
    rfl
  · rw [he, left_map_leaves, if_neg (by decide)]
    exact (counters_answer ha).2.2.symm

theorem accepted_answer (b : Backlog) (c : Call) :
    (c.answer b).2.accepted = b.accepted + c.pushed.length := by
  obtain ⟨record, rfl⟩ | ⟨⟨hp, -⟩, ha⟩ := answer_cases b c
  · rfl
  · rw [hp]
    exact (counters_answer ha).2.1

theorem capacity_answer (b : Backlog) (c : Call) : (c.answer b).2.capacity = b.capacity := by
  obtain ⟨record, rfl⟩ | ⟨-, ha⟩ := answer_cases b c
  · rfl
  · exact (counters_answer ha).1

end Call

/-! ## Runs of calls -/

/-- A backlog in use: what it has handed out so far, and what happened to its queue. -/
structure Run where
  backlog : Backlog
  handedOut : List ExecutionRecord := []
  events : List (QueueEvent ExecutionRecord) := []

namespace Run

/-- The run after one more call. -/
def step (r : Run) (c : Call) : Run where
  backlog := (c.answer r.backlog).2
  handedOut := r.handedOut ++ (c.answer r.backlog).1
  events := r.events ++ c.events r.backlog

/-- The run of some calls of a new backlog. -/
def ofCalls (capacity : Nat) (calls : List Call) : Run :=
  calls.foldl step { backlog := .empty capacity }

end Run

/-- The records that some calls bring, in order. -/
def pushedBy (calls : List Call) : List ExecutionRecord :=
  calls.flatMap Call.pushed

/-- The events of a run lead from an empty queue to its records, and its lists and counters say what
the events were. -/
structure Traced (capacity : Nat) (calls : List Call) (r : Run) : Prop where
  bounded : r.backlog.capacity = max capacity 1
  queue : QueueRun (max capacity 1) [] r.events r.backlog.records
  entered : entered r.events = pushedBy calls
  handedOut : left .handedOut r.events = r.handedOut
  dropped : (left .dropped r.events).length = r.backlog.dropped
  accepted : r.backlog.accepted = (pushedBy calls).length

namespace Traced

variable {capacity : Nat} {calls : List Call} {r : Run}

theorem step (h : Traced capacity calls r) (c : Call) :
    Traced capacity (calls ++ [c]) (r.step c) := by
  have hp : pushedBy (calls ++ [c]) = pushedBy calls ++ c.pushed := by simp [pushedBy]
  constructor
  · exact (c.capacity_answer r.backlog).trans h.bounded
  · have hc := c.queueRun_events r.backlog
    rw [h.bounded] at hc
    exact h.queue.append hc
  · rw [hp, ← h.entered, ← c.entered_events r.backlog]
    exact entered_append _ _
  · have hl := left_append .handedOut r.events (c.events r.backlog)
    rw [h.handedOut, c.left_handedOut_events] at hl
    exact hl
  · have hl := congrArg List.length (left_append .dropped r.events (c.events r.backlog))
    rw [List.length_append, h.dropped, c.length_left_dropped_events] at hl
    exact hl
  · rw [hp, List.length_append, ← h.accepted]
    exact c.accepted_answer r.backlog

theorem foldl_step (h : Traced capacity calls r) (more : List Call) :
    Traced capacity (calls ++ more) (more.foldl Run.step r) := by
  induction more generalizing calls r with
  | nil =>
    rw [List.append_nil]
    exact h
  | cons c more ih =>
    have hc := ih (h.step c)
    rwa [List.append_assoc, List.singleton_append] at hc

end Traced

theorem traced_ofCalls (capacity : Nat) (calls : List Call) :
    Traced capacity calls (Run.ofCalls capacity calls) := by
  have h : Traced capacity [] { backlog := .empty capacity } :=
    ⟨rfl, .done [], rfl, rfl, rfl, rfl⟩
  exact h.foldl_step calls

/-- **A flush that succeeds hands out the records whose lines it has written**, all that there were, and
says how many they are. -/
theorem written_answer {b after : Backlog} {s s' : Storage} {path : String} {lines : Nat}
    (h : b.flush s path = (.ok (lines, after), s')) :
    lines = ((Call.flush s path).answer b).1.length ∧ after.records = [] ∧
      Written ((Call.flush s path).answer b).1 path s s' := by
  rw [Call.answer_flush h]
  obtain ⟨hr, hf⟩ | ⟨hr, written, ⟨hw, hf⟩ | ⟨-, hf⟩⟩ := b.flush_cases s path
  · rw [hf] at h
    cases h
    rw [hr]
    exact ⟨rfl, rfl, fun _ => rfl, fun hn => absurd rfl hn⟩
  · rw [hf] at h
    cases h
    exact ⟨rfl, rfl, fun hn => absurd hn hr, fun _ => Storage.read?_of_append hw⟩
  · rw [hf] at h
    cases h

/-- **All records are accounted for after every run of calls**: the backlog keeps to its capacity,
every record that was pushed was handed out, was dropped or is still there, and dropping left the
others in order and took the oldest one each time, when there was no room for it. A flush succeeds
when its log can be written; what it hands out then stands in the log, a line for each record. A flush
that fails changes nothing. -/
theorem records_are_conserved (capacity : Nat) (calls : List Call) :
    let r := Run.ofCalls capacity calls
    r.backlog.records.length ≤ max capacity 1 ∧
      r.backlog.accepted = (pushedBy calls).length ∧
      r.backlog.accepted = r.backlog.records.length + r.backlog.dropped + r.handedOut.length ∧
      (r.handedOut ++ r.backlog.records).Sublist (pushedBy calls) ∧
      (QueueRun (max capacity 1) [] r.events r.backlog.records ∧
        entered r.events = pushedBy calls ∧
        left .handedOut r.events = r.handedOut ∧
        (left .dropped r.events).length = r.backlog.dropped) ∧
      (∀ s path, (s.append path (logBytes r.backlog.records)).1 = true →
        ∃ lines after s', r.backlog.flush s path = (.ok (lines, after), s')) ∧
      (∀ s path lines after s', r.backlog.flush s path = (.ok (lines, after), s') →
        let handedOut := ((Call.flush s path).answer r.backlog).1
        lines = handedOut.length ∧ after.records = [] ∧ Written handedOut path s s') ∧
      ∀ s path failure after s', r.backlog.flush s path = (.error (failure, after), s') →
        after.records = r.backlog.records ∧ after.accepted = r.backlog.accepted ∧
          after.dropped = r.backlog.dropped := by
  intro r
  have ht : Traced capacity calls r := traced_ofCalls capacity calls
  have hq := ht.queue.entered_eq
  rw [List.nil_append, ht.entered] at hq
  refine ⟨?_, ht.accepted, ?_, ?_, ⟨ht.queue, ht.entered, ht.handedOut, ht.dropped⟩, ?_, ?_, ?_⟩
  · rw [← ht.bounded]
    exact r.backlog.length_le
  · rw [ht.accepted, hq, List.length_append, List.length_map, length_departures, ht.handedOut,
      ht.dropped]
    omega
  · rw [hq, ← ht.handedOut]
    exact (List.filter_sublist.map _).append (List.Sublist.refl _)
  · intro s path hs
    exact exists_flush_eq hs
  · intro s path lines after s' hf
    exact written_answer hf
  · intro s path failure after s' hf
    rw [flush_error hf]
    exact ⟨rfl, rfl, rfl⟩

/-- The record of a query that returned a number of rows. -/
def rowsRecord (rows : Float) : ExecutionRecord :=
  .ofCardinality {} rows

/-- There is one record too many for a backlog of two. A log below a file cannot be written, another one
can, and one more record comes after it. -/
def crowdedCalls : List Call :=
  [.push (rowsRecord 1.0), .push (rowsRecord 2.0), .push (rowsRecord 3.0),
    .flush (({} : Storage).append "f" []).2 "f/log.jsonl", .flush {} "log.jsonl",
    .push (rowsRecord 4.0), .snapshot]

/-- Of four records the first was dropped, the next two were handed out and the last one is still
there. -/
theorem records_are_conserved_of_crowdedCalls :
    let r := Run.ofCalls 2 crowdedCalls
    r.handedOut.map (·.cardinality) = [some 2.0, some 3.0] ∧
      r.backlog.records.map (·.cardinality) = [some 4.0] ∧
      r.backlog.accepted = 4 ∧ r.backlog.dropped = 1 ∧
      ∃ after s', r.backlog.flush {} "log.jsonl" = (.ok (1, after), s') ∧ after.records = [] ∧
        s'.read? "log.jsonl" = some (logBytes r.backlog.records) := by
  intro r
  have hhanded : r.handedOut.map (·.cardinality) = [some 2.0, some 3.0] := by decide +kernel
  have hrecords : r.backlog.records.map (·.cardinality) = [some 4.0] := by decide +kernel
  have htwo : r.handedOut.length = 2 := by simpa using congrArg List.length hhanded
  have hone : r.backlog.records.length = 1 := by simpa using congrArg List.length hrecords
  obtain ⟨-, haccepted, hsum, -, -, hexists, hflush, -⟩ := records_are_conserved 2 crowdedCalls
  have hfour : r.backlog.accepted = 4 := haccepted
  refine ⟨hhanded, hrecords, hfour, ?_, ?_⟩
  · have hsum : r.backlog.accepted =
        r.backlog.records.length + r.backlog.dropped + r.handedOut.length := hsum
    omega
  · obtain ⟨lines, after, s', hf⟩ := hexists {} "log.jsonl" rfl
    obtain ⟨-, hafter, hwritten⟩ := hflush {} "log.jsonl" lines after s' hf
    obtain ⟨rfl, rfl⟩ := flush_ok hf
    rw [Call.answer_flush hf] at hwritten
    have hne : r.backlog.records ≠ [] := by
      rw [← List.length_pos_iff, hone]
      decide
    refine ⟨r.backlog.cleared, s', hf.trans ?_, hafter, hwritten.appended hne⟩
    rw [← hone]

end Backlog

end QueryForecast
