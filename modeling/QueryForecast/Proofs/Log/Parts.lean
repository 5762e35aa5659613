import QueryForecast.Proofs.Log.Counted

/-!
# Reading a log in parts

A log that is cut at a line break can be read in parts: the parts have the lines of the whole, and what
a line comes to depends on its bytes alone. So a line that is of no use costs the others nothing,
wherever it stands.

* `LogReading.append` — the readings of two parts, put together.
* `LogReading.recordOf?` — the record of a line by itself, and `LogReading.records_read` — the records of
  a log are those of its lines.
* `LogReading.read_cut` — a log that is cut at a line break.
* `LogReading.reads_in_parts` — what this means for the lines that are of no use.
-/

namespace QueryForecast.LogReading

variable {t : Target} {line : List UInt8} {number : Nat}

/-- The readings of two parts of a log, put together. -/
def append (first second : LogReading) : LogReading where
  records := first.records ++ second.records
  skipped := first.skipped + second.skipped
  lines := first.lines + second.lines

theorem empty_append (second : LogReading) : append {} second = second := by
  simp [append]

/-- A line in front of the first part is in front of both. -/
theorem add_append (line : LineReading) (first second : LogReading) :
    (add line first).append second = add line (first.append second) := by
  cases line with
  | blank => rfl
  | usable record => simp [append, add, Nat.add_right_comm]
  | skipped => simp [append, add, Nat.add_right_comm]

theorem foldr_append (t : Target) (first second : List (List UInt8)) :
    (first ++ second).foldr (fun line rest => add (readLine t line) rest) {} =
      (first.foldr (fun line rest => add (readLine t line) rest) {}).append
        (second.foldr (fun line rest => add (readLine t line) rest) {}) := by
  induction first with
  | nil => exact (empty_append _).symm
  | cons line first ih => rw [List.cons_append, List.foldr_cons, List.foldr_cons, ih, add_append]

/-- **A log that is cut at a line break is read in parts.** -/
theorem read_cut (t : Target) (before after : List UInt8) :
    read t (before ++ lineBreak :: after) = (read t before).append (read t after) := by
  have hs : (before ++ lineBreak :: after).splitOn lineBreak =
      before.splitOn lineBreak ++ after.splitOn lineBreak :=
    List.splitOnP_append_cons before after (beq_self_eq_true lineBreak)
  unfold read
  rw [hs]
  exact foldr_append t _ _

/-! ## Lines by themselves -/

/-- The record of the line with the given number, if the line is accepted. -/
def recordOf? (t : Target) (number : Nat) (line : List UInt8) : Option ExecutionRecord :=
  (lineText? line).bind fun text => (ExecutionRecord.parseLine t number text).toOption

/-- A line puts its record in front of the others, if it has one. Its number does not matter. -/
theorem records_add_readLine (t : Target) (number : Nat) (line : List UInt8) (rest : LogReading) :
    (add (readLine t line) rest).records = (recordOf? t number line).toList ++ rest.records := by
  unfold readLine recordOf? ExecutionRecord.parseLine
  cases lineText? line with
  | none => rfl
  | some text =>
    rw [Option.bind_some]
    dsimp only
    split
    · rename_i he
      rw [String.isEmpty_iff.1 he, ofLine_empty]
      rfl
    · cases ExecutionRecord.ofLine t text with
      | ok record => rfl
      | error fault => rfl

/-- **The records of a log are those of its lines**, each by itself. -/
theorem records_read (t : Target) (number : Nat) (bytes : List UInt8) :
    (read t bytes).records = (bytes.splitOn lineBreak).filterMap (recordOf? t number) := by
  unfold read
  induction bytes.splitOn lineBreak with
  | nil => rfl
  | cons line rest ih =>
    rw [List.foldr_cons, records_add_readLine t number, ih, List.filterMap_cons]
    cases recordOf? t number line <;> rfl

theorem recordOf?_of_not_isAccepted (h : isAccepted t line number = false) :
    recordOf? t number line = none := by
  unfold isAccepted at h
  unfold recordOf?
  cases hl : lineText? line with
  | none => rfl
  | some text =>
    rw [hl] at h
    dsimp only at h
    rw [Option.bind_some]
    cases hp : ExecutionRecord.parseLine t number text with
    | ok record =>
      rw [hp] at h
      cases h
    | error failure => rfl

/-- A line that is not accepted, read as a log, has no record. -/
theorem records_read_of_not_isAccepted (hl : lineBreak ∉ line)
    (h : isAccepted t line number = false) : (read t line).records = [] := by
  have hs : line.splitOn lineBreak = [line] :=
    List.splitOnP_eq_singleton fun b hb => by
      rw [beq_eq_false_iff_ne]
      exact fun hc => hl (hc ▸ hb)
  rw [records_read t number, hs, List.filterMap_cons_none (recordOf?_of_not_isAccepted h),
    List.filterMap_nil]

/-- **A log is read in parts.** Of a log that is cut at a line break, the records are those of the first
part and then those of the second, and so are the counts. So a line that is not accepted, be it
malformed, no text or blank, changes nothing about the records of the others, whether it stands in
front of them, behind them or between them. -/
theorem reads_in_parts (t : Target) (before after : List UInt8) :
    let whole := read t (before ++ lineBreak :: after)
    whole.records = (read t before).records ++ (read t after).records ∧
      whole.skipped = (read t before).skipped + (read t after).skipped ∧
      whole.lines = (read t before).lines + (read t after).lines ∧
      ∀ line number, lineBreak ∉ line → isAccepted t line number = false →
        (read t (line ++ lineBreak :: after)).records = (read t after).records ∧
          (read t (before ++ lineBreak :: line)).records = (read t before).records ∧
          (read t (before ++ lineBreak :: line ++ lineBreak :: after)).records = whole.records := by
  intro whole
  have hcut : whole = (read t before).append (read t after) := read_cut t before after
  refine ⟨congrArg records hcut, congrArg skipped hcut, congrArg lines hcut, ?_⟩
  intro line number hl h
  have hr := records_read_of_not_isAccepted hl h
  have happend (first second : LogReading) :
      (first.append second).records = first.records ++ second.records := rfl
  refine ⟨?_, ?_, ?_⟩
  · rw [read_cut, happend, hr, List.nil_append]
  · rw [read_cut, happend, hr, List.append_nil]
  · rw [hcut, read_cut, read_cut, happend, happend, happend, hr, List.append_nil]

/-- A usable line for selectivities. -/
def usableLine : List UInt8 :=
  bytesOf "\x7b\"features\":\x7b\x7d,\"actual_selectivity\":1\x7d"

theorem reads_in_parts_around_no_text :
    lineBreak ∉ ([0xff, 0xfe] : List UInt8) ∧ isAccepted .selectivity [0xff, 0xfe] 2 = false ∧
      (read .selectivity usableLine).records.length = 1 ∧
      (read .selectivity (usableLine ++ lineBreak :: [0xff, 0xfe] ++ lineBreak :: usableLine)).records =
        (read .selectivity usableLine).records ++ (read .selectivity usableLine).records := by
  have hl : lineBreak ∉ ([0xff, 0xfe] : List UInt8) := by decide
  have ha : isAccepted .selectivity [0xff, 0xfe] 2 = false := by decide +kernel
  have hu : (read .selectivity usableLine).records.length = 1 := by
    unfold usableLine
    rw [bytesOf_eq_flatMap]
    decide +kernel
  obtain ⟨hr, -, -, hline⟩ := reads_in_parts .selectivity usableLine usableLine
  exact ⟨hl, ha, hu, (hline _ 2 hl ha).2.2.trans hr⟩

end QueryForecast.LogReading
