import QueryForecast.Proofs.Log.Decoded
import QueryForecast.Proofs.Log.Lines

/-!
# Counting the lines of a log

A log is read line by line, and what one line comes to says nothing about the others. So the counts of
a reading are those of its lines: how many are not blank, and how many are accepted.

* `LogReading.isNotBlank`, `LogReading.isAccepted` — what a line counts as.
* `LogReading.Counts.add`, `LogReading.counts_read` — one line, and all lines.
* `LogReading.readable_of_mem_read` — the records of a log are as tame as its text.
-/

namespace QueryForecast.LogReading

open Json

variable {t : Target} {bytes line : List UInt8} {r : ExecutionRecord}

/-- Whether a line counts: blank text does not, and what is not text does. -/
def isNotBlank (line : List UInt8) : Bool :=
  lineText? line != some ""

/-- Whether the line with the given number is accepted: it is text, and the text parses. -/
def isAccepted (t : Target) (line : List UInt8) (number : Nat) : Bool :=
  match lineText? line with
  | some text => (ExecutionRecord.parseLine t number text).isOk
  | none => false

/-- The number of lines that are not blank. -/
def nonBlankCount (bytes : List UInt8) : Nat :=
  (bytes.splitOn lineBreak).countP isNotBlank

/-- The number of lines that are accepted. Lines are numbered from one. -/
def acceptedCount (t : Target) (bytes : List UInt8) : Nat :=
  ((bytes.splitOn lineBreak).zipIdx 1).countP fun numbered => isAccepted t numbered.1 numbered.2

/-! ## One line -/

theorem ofLine_empty (t : Target) : ExecutionRecord.ofLine t "" = .error .notJson := by
  have h : parse? "" = none := by decide +kernel
  rw [ExecutionRecord.ofLine, h]

/-- What a line comes to is what it counts as. Its number does not matter. -/
theorem readLine_cases (t : Target) (line : List UInt8) (number : Nat) :
    (readLine t line = .blank ∧ isNotBlank line = false ∧ isAccepted t line number = false) ∨
      (∃ r, readLine t line = .usable r ∧ isNotBlank line = true ∧
        isAccepted t line number = true) ∨
      (readLine t line = .skipped ∧ isNotBlank line = true ∧ isAccepted t line number = false) := by
  unfold readLine isNotBlank isAccepted ExecutionRecord.parseLine
  cases lineText? line with
  | none => exact .inr (.inr ⟨rfl, rfl, rfl⟩)
  | some text =>
    dsimp only
    by_cases he : text = ""
    · subst he
      rw [ofLine_empty]
      exact .inl ⟨rfl, rfl, rfl⟩
    · have hb : (some text != some "") = true := by simpa using he
      rw [if_neg (by simpa [String.isEmpty_iff] using he), hb]
      cases ExecutionRecord.ofLine t text with
      | ok record => exact .inr (.inl ⟨record, rfl, rfl, rfl⟩)
      | error fault => exact .inr (.inr ⟨rfl, rfl, rfl⟩)

/-! ## All lines -/

/-- A reading has the counts of some lines, which are numbered from `start` on. -/
structure Counts (t : Target) (start : Nat) (lines : List (List UInt8)) (reading : LogReading) :
    Prop where
  nonBlank : reading.lines = lines.countP isNotBlank
  accepted : reading.records.length =
    (lines.zipIdx start).countP fun numbered => isAccepted t numbered.1 numbered.2
  skipped : reading.lines = reading.records.length + reading.skipped

/-- **One line more.** -/
theorem Counts.add {start : Nat} {lines : List (List UInt8)} {reading : LogReading}
    (h : Counts t (start + 1) lines reading) (line : List UInt8) :
    Counts t start (line :: lines) (add (readLine t line) reading) := by
  obtain ⟨h1, h2, h3⟩ := h
  rcases readLine_cases t line start with ⟨hr, hb, ha⟩ | ⟨r, hr, hb, ha⟩ | ⟨hr, hb, ha⟩
  · rw [hr]
    exact ⟨by simp [LogReading.add, h1, hb], by simp [LogReading.add, h2, ha], h3⟩
  · rw [hr]
    refine ⟨by simp [LogReading.add, h1, hb], by simp [LogReading.add, h2, ha], ?_⟩
    show reading.lines + 1 = reading.records.length + 1 + reading.skipped
    omega
  · rw [hr]
    refine ⟨by simp [LogReading.add, h1, hb], by simp [LogReading.add, h2, ha], ?_⟩
    show reading.lines + 1 = reading.records.length + (reading.skipped + 1)
    omega

theorem counts_foldr (t : Target) (start : Nat) (lines : List (List UInt8)) :
    Counts t start lines (lines.foldr (fun line rest => add (readLine t line) rest) {}) := by
  induction lines generalizing start with
  | nil => exact ⟨rfl, rfl, rfl⟩
  | cons line rest ih => exact (ih (start + 1)).add line

/-- **The counts of a reading are those of its lines.** -/
theorem counts_read (t : Target) (bytes : List UInt8) :
    Counts t 1 (bytes.splitOn lineBreak) (read t bytes) :=
  counts_foldr t 1 _

/-- Every record of a reading is that of an accepted line. -/
theorem exists_line_of_mem_read (h : r ∈ (read t bytes).records) :
    ∃ line ∈ bytes.splitOn lineBreak, ∃ text, lineText? line = some text ∧
      ExecutionRecord.ofLine t text = .ok r := by
  unfold read at h
  generalize bytes.splitOn lineBreak = lines at h ⊢
  induction lines with
  | nil => cases h
  | cons line rest ih =>
    rw [List.foldr_cons] at h
    have hrest (hr : r ∈ (rest.foldr (fun line rest => add (readLine t line) rest) {}).records) :
        ∃ l ∈ line :: rest, ∃ text, lineText? l = some text ∧
          ExecutionRecord.ofLine t text = .ok r := by
      obtain ⟨l, hl, ht⟩ := ih hr
      exact ⟨l, List.mem_cons_of_mem _ hl, ht⟩
    cases hline : readLine t line with
    | blank => exact hrest (by rw [hline] at h; exact h)
    | skipped => exact hrest (by rw [hline] at h; exact h)
    | usable record =>
      rw [hline] at h
      rcases List.mem_cons.1 h with rfl | h
      · unfold readLine at hline
        split at hline
        · cases hline
        · rename_i text htext
          split at hline
          · cases hline
          · split at hline
            · rename_i record hrecord
              cases hline
              exact ⟨line, List.mem_cons_self, text, htext, hrecord⟩
            · cases hline
      · exact hrest h

/-! ## Sizes -/

theorem length_toList_le (s : String) : s.toList.length ≤ (bytesOf s).length := by
  rw [bytesOf_eq_flatMap]
  induction s.toList with
  | nil => exact Nat.le_refl _
  | cons c rest ih =>
    have hc : 1 ≤ (String.utf8EncodeChar c).length := by
      rw [String.length_utf8EncodeChar]
      exact c.utf8Size_pos
    rw [List.flatMap_cons, List.length_append, List.length_cons]
    omega

theorem length_trim_le (text : List Char) : (Text.trim text).length ≤ text.length := by
  have hs : ∀ cs : List Char, (Text.trimStart cs).length ≤ cs.length :=
    fun cs => (List.dropWhile_sublist _).length_le
  unfold Text.trim
  rw [List.length_reverse]
  exact (hs _).trans (by rw [List.length_reverse]; exact hs _)

/-- The text of a line has no more characters than the line has bytes. -/
theorem length_lineText?_le {text : String} (h : lineText? line = some text) :
    text.toList.length ≤ line.length := by
  obtain ⟨s, hs, rfl⟩ := Option.map_eq_some_iff.1 h
  have hb : bytesOf s = line := by
    unfold String.fromUTF8? at hs
    split at hs
    · cases hs
      rw [bytesOf_eq_toList]
      rfl
    · cases hs
  rw [String.toList_ofList, ← hb]
  exact (length_trim_le _).trans (length_toList_le s)

theorem length_le_of_mem_splitOn (h : line ∈ bytes.splitOn lineBreak) :
    line.length ≤ bytes.length := by
  unfold List.splitOn at h
  induction bytes generalizing line with
  | nil => simp_all
  | cons b rest ih =>
    rw [List.splitOnP_cons_eq_if_modifyHead] at h
    split at h
    · rcases List.mem_cons.1 h with rfl | h
      · exact Nat.zero_le _
      · exact (ih h).trans (Nat.le_succ _)
    · cases hl : rest.splitOnP fun x => x == lineBreak with
      | nil =>
        rw [hl] at h
        cases h
      | cons first others =>
        rw [hl] at h ih
        rcases List.mem_cons.1 h with rfl | h
        · exact Nat.succ_le_succ (ih List.mem_cons_self)
        · exact (ih (List.mem_cons_of_mem _ h)).trans (Nat.le_succ _)

/-- **The records of a log are readable**: they have valid outcomes, finite numbers, and no list
that is longer than the log. -/
theorem readable_of_mem_read (h : r ∈ (read t bytes).records) :
    r.query.Readable bytes.length ∧ ∃ y, r.outcome? t = some y := by
  obtain ⟨line, hl, text, ht, hr⟩ := exists_line_of_mem_read h
  obtain ⟨hq, hy⟩ := ExecutionRecord.readable_of_ofLine hr
  exact ⟨hq.mono ((length_lineText?_le ht).trans (length_le_of_mem_splitOn hl)), hy⟩

end QueryForecast.LogReading
