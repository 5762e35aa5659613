import QueryForecast.Proofs.Decimal.Digits
import QueryForecast.Proofs.Time.Calendar
import QueryForecast.Time.Printing

/-!
# Timestamps are read back

Every number in the text of a timestamp has the width that its reader takes, and is followed by a mark,
so the readers take the text apart as it was put together.

* `IsInstant` — a timestamp within the supported years, with leap seconds only at the end of a minute.
* `digits_append`, `field_padded` — a padded number is read up to its mark.
* `date_text`, `time_text` — the date and the time of day.
* `parse?_text` — the text of an instant denotes the instant.
* `isInstant_of_parse?` — what a text denotes is an instant, however the text is spelled.
-/

namespace QueryForecast.Time

open Decimal Numeric Text

/-- A timestamp within the supported years, with leap seconds only at the end of a minute. -/
structure Timestamp.IsInstant (t : Timestamp) : Prop where
  day : isSupportedDay t.day = true
  leap : nanosPerSecond ≤ t.nano.val → t.second.val % 60 = 59

/-! ## Padded numbers -/

theorem isDigit_of_mem_padded {width n : ℕ} {c : Char} (h : c ∈ padded width n) :
    c.isDigit = true := by
  unfold padded at h
  rcases List.mem_append.1 h with h | h
  · rw [List.eq_of_mem_replicate h]
    decide
  · exact isDigit_of_mem_digitsOf h

theorem padded_ne_nil (width n : ℕ) : padded width n ≠ [] := by
  unfold padded
  simp [digitsOf_ne_nil]

theorem valueOf_padded (width n : ℕ) : valueOf (padded width n) = n := by
  unfold padded
  rw [valueOf_append, valueOf_zeros, valueOf_digitsOf, Nat.zero_mul, Nat.zero_add]

theorem length_padded {width n : ℕ} (hw : 0 < width) (h : n < 10 ^ width) :
    (padded width n).length = width := by
  have hl := length_digitsOf_le hw h
  unfold padded
  rw [List.length_append, List.length_replicate]
  omega

namespace Reading

variable {rest : List Char}

theorem trimStart_of_isDigit {c : Char} (h : c.isDigit = true) (text : List Char) :
    trimStart (c :: text) = c :: text := by
  have hc : 48 ≤ c.toNat ∧ c.toNat ≤ 57 := Char.isDigit_iff_toNat.1 h
  refine List.dropWhile_cons_of_neg ?_
  simp [isBlank]
  omega

theorem noDigitAhead_take (h : NoDigitAhead rest) (n : ℕ) : NoDigitAhead (rest.take n) := by
  intro c hc
  cases rest with
  | nil =>
    rw [List.take_nil] at hc
    cases hc
  | cons d rest =>
    cases n with
    | zero => cases hc
    | succ n => exact h c hc

/-- **A run of digits is read up to its mark**, when the reader takes as many. -/
theorem digits_append {width : ℕ} {ds : List Char} (hd : ∀ c ∈ ds, c.isDigit = true)
    (hne : ds ≠ []) (hw : ds.length ≤ width) (hr : NoDigitAhead rest) :
    digits width (ds ++ rest) = some (valueOf ds, rest) := by
  have hrun : ((ds ++ rest).take width).takeWhile Char.isDigit = ds := by
    rw [List.take_append, List.take_of_length_le hw,
      takeWhile_isDigit_append hd (noDigitAhead_take hr _)]
  unfold digits
  dsimp only
  rw [hrun, if_neg (by simpa using hne), List.drop_left]

theorem exists_padded_cons (width n : ℕ) :
    ∃ c cs, padded width n = c :: cs ∧ c.isDigit = true := by
  cases hp : padded width n with
  | nil => exact absurd hp (padded_ne_nil width n)
  | cons c cs =>
    have hc : c ∈ padded width n := by
      rw [hp]
      exact List.mem_cons_self
    exact ⟨c, cs, rfl, isDigit_of_mem_padded hc⟩

theorem trimStart_padded (width n : ℕ) (rest : List Char) :
    trimStart (padded width n ++ rest) = padded width n ++ rest := by
  obtain ⟨c, cs, hp, hc⟩ := exists_padded_cons width n
  rw [hp, List.cons_append, trimStart_of_isDigit hc]

theorem digits_padded {width : ℕ} (n : ℕ) (hw : (padded 4 n).length ≤ width) (hr : NoDigitAhead rest) :
    digits width (padded 4 n ++ rest) = some (n, rest) := by
  rw [digits_append (fun c => isDigit_of_mem_padded) (padded_ne_nil 4 n) hw hr, valueOf_padded]

theorem field_padded {n : ℕ} (h : n < 100) (hr : NoDigitAhead rest) :
    field 2 (padded 2 n ++ rest) = some (n, rest) := by
  unfold field
  rw [trimStart_padded, digits_append (fun c => isDigit_of_mem_padded) (padded_ne_nil 2 n)
    (length_padded (by decide) h).le hr, valueOf_padded]

/-! ## Dates -/

theorem mark_cons {c : Char} (h : isBlank c = false) (rest : List Char) :
    mark c (c :: rest) = some rest := by
  have htrim : trimStart (c :: rest) = c :: rest :=
    List.dropWhile_cons_of_neg (by rw [h]; decide)
  unfold mark
  rw [htrim]
  exact if_pos rfl

theorem noDigitAhead_minus (rest : List Char) : NoDigitAhead ('-' :: rest) :=
  noDigitAhead_cons (by decide)

/-- After a sign any number of digits is read. -/
theorem digits_padded_length (n : ℕ) (hr : NoDigitAhead rest) :
    digits (padded 4 n ++ rest).length (padded 4 n ++ rest) = some (n, rest) := by
  refine digits_padded n ?_ hr
  rw [List.length_append]
  omega

/-- A year without a sign has four digits. -/
theorem year_padded {n : ℕ} (hn : n < 10000) (hr : NoDigitAhead rest) :
    year (padded 4 n ++ rest) = some ((n : ℤ), rest) := by
  have hfour : (padded 4 n).length = 4 := length_padded (by decide) hn
  have hread := digits_padded n hfour.le hr
  obtain ⟨c, cs, hp, hc⟩ := exists_padded_cons 4 n
  unfold year
  rw [trimStart_padded]
  split
  · rename_i he
    rw [hp, List.cons_append] at he
    rw [(List.cons.inj he).1] at hc
    exact absurd hc (by decide)
  · rename_i he
    rw [hp, List.cons_append] at he
    rw [(List.cons.inj he).1] at hc
    exact absurd hc (by decide)
  · rw [hread]
    rfl

/-- A year is read with its sign. -/
theorem year_yearText (y : ℤ) (hr : NoDigitAhead rest) :
    year (yearText y ++ rest) = some (y, rest) := by
  have hread := digits_padded_length y.natAbs hr
  unfold yearText
  by_cases hneg : y < 0
  · rw [if_pos hneg, List.cons_append]
    show (digits (padded 4 y.natAbs ++ rest).length (padded 4 y.natAbs ++ rest)).map _ = _
    have hy : -(y.natAbs : ℤ) = y := by omega
    rw [hread]
    show some (-(y.natAbs : ℤ), rest) = _
    rw [hy]
  · have hy : (y.natAbs : ℤ) = y := by omega
    rw [if_neg hneg]
    by_cases hlong : 9999 < y
    · rw [if_pos hlong, List.cons_append]
      show (digits (padded 4 y.natAbs ++ rest).length (padded 4 y.natAbs ++ rest)).map _ = _
      rw [hread]
      show some ((y.natAbs : ℤ), rest) = _
      rw [hy]
    · rw [if_neg hlong, year_padded (by omega) hr, hy]

/-- **A date is read back.** -/
theorem date_text {y : ℤ} {month day : ℕ} (hm : month < 100) (hd : day < 100)
    (hr : NoDigitAhead rest) :
    date (yearText y ++ '-' :: (padded 2 month ++ '-' :: (padded 2 day ++ rest))) =
      some (⟨y, month, day⟩, rest) := by
  unfold date
  simp only [year_yearText y (noDigitAhead_minus _), mark_cons (c := '-') (by decide),
    field_padded hm (noDigitAhead_minus _), field_padded hd hr, bind, Option.bind_some]
  rfl

/-! ## Times of day -/

/-- A fraction of three digits, six or nine is read as nanoseconds. -/
theorem fraction_padded {width n : ℕ} (hw0 : 0 < width) (hw : width ≤ 9) (hn : n < 10 ^ width)
    (hr : NoDigitAhead rest) :
    fraction (padded width n ++ rest) = some (n * tenPow (9 - width), rest) := by
  have hrun := takeWhile_isDigit_append (fun c (hc : c ∈ padded width n) => isDigit_of_mem_padded hc) hr
  unfold fraction
  dsimp only
  rw [hrun, if_neg (by simpa using padded_ne_nil width n), List.drop_left, List.take_of_length_le
    (by rw [length_padded hw0 hn]; exact hw), valueOf_padded, length_padded hw0 hn]

/-- The text of a fraction is empty for zero, and is read back otherwise. -/
theorem fractionText_cases {nano : ℕ} (hn : nano < 1000000000) :
    nano = 0 ∧ fractionText nano = [] ∨
      ∃ ds, fractionText nano = '.' :: ds ∧
        ∀ rest, NoDigitAhead rest → fraction (ds ++ rest) = some (nano, rest) := by
  unfold fractionText
  by_cases h0 : nano = 0
  · exact .inl ⟨h0, if_pos h0⟩
  · right
    rw [if_neg h0]
    by_cases h3 : nano % 1000000 = 0
    · rw [if_pos h3]
      refine ⟨_, rfl, fun rest hr => ?_⟩
      rw [fraction_padded (by decide) (by decide) (by omega) hr, show tenPow (9 - 3) = 1000000 from rfl,
        Nat.div_mul_cancel (Nat.dvd_of_mod_eq_zero h3)]
    · rw [if_neg h3]
      by_cases h6 : nano % 1000 = 0
      · rw [if_pos h6]
        refine ⟨_, rfl, fun rest hr => ?_⟩
        rw [fraction_padded (by decide) (by decide) (by omega) hr, show tenPow (9 - 6) = 1000 from rfl,
          Nat.div_mul_cancel (Nat.dvd_of_mod_eq_zero h6)]
      · rw [if_neg h6]
        refine ⟨_, rfl, fun rest hr => ?_⟩
        rw [fraction_padded (by decide) (by decide) hn hr, show tenPow (9 - 9) = 1 from rfl, Nat.mul_one]

theorem noDigitAhead_colon (rest : List Char) : NoDigitAhead (':' :: rest) :=
  noDigitAhead_cons (by decide)

/-- **A time of day is read back.** -/
theorem time_text {hour minute second nano : ℕ} (hh : hour < 100) (hm : minute < 100)
    (hs : second < 100) (hn : nano < 1000000000) :
    time (padded 2 hour ++ ':' :: (padded 2 minute ++ ':' :: (padded 2 second ++
      (fractionText nano ++ ['Z'])))) = some ((hour, minute, second, nano), ['Z']) := by
  have hz : NoDigitAhead ['Z'] := noDigitAhead_cons (by decide)
  unfold time
  simp only [field_padded hh (noDigitAhead_colon _), mark_cons (c := ':') (by decide),
    field_padded hm (noDigitAhead_colon _), bind, Option.bind_some]
  rcases fractionText_cases hn with ⟨rfl, ht⟩ | ⟨ds, ht, hread⟩
  · rw [ht, List.nil_append, field_padded hs hz]
    rfl
  · rw [ht, List.cons_append, field_padded hs (noDigitAhead_cons (by decide))]
    show (fraction (ds ++ ['Z'])).bind _ = _
    rw [hread _ hz]
    rfl

end Reading

/-! ## Timestamps -/

namespace Timestamp

variable {t : Timestamp}

/-- The second that a text has: a leap second is written as the second 60. -/
def writtenSecond (t : Timestamp) : ℕ :=
  t.second.val % 60 + if nanosPerSecond ≤ t.nano.val then 1 else 0

theorem ofParts_eq (t : Timestamp) : ofParts t.day t.second.val t.nano.val = t := by
  have hs : Fin.ofNat 86400 t.second.val = t.second := Fin.ext (Nat.mod_eq_of_lt t.second.isLt)
  have hn : Fin.ofNat 2000000000 t.nano.val = t.nano := Fin.ext (Nat.mod_eq_of_lt t.nano.isLt)
  unfold ofParts
  rw [hs, hn]

/-- An instant is put together from its date and time of day. -/
theorem assemble_eq (h : t.IsInstant) :
    Reading.assemble (civil t.day) t.hour t.minute t.writtenSecond (t.nano.val % nanosPerSecond) 0 =
      some t := by
  obtain ⟨hday, hleap⟩ := h
  obtain ⟨hmin, hmax⟩ := year_civil hday
  have hsecond := t.second.isLt
  have hnano := t.nano.isLt
  have hnanos : nanosPerSecond = 1000000000 := rfl
  have hwritten : t.writtenSecond ≤ 60 := by
    unfold writtenSecond
    split <;> omega
  have hparts : (if t.writtenSecond = 60 then
      (59, t.nano.val % nanosPerSecond + nanosPerSecond)
      else (t.writtenSecond, t.nano.val % nanosPerSecond)) = (t.second.val % 60, t.nano.val) := by
    unfold writtenSecond
    rw [hnanos] at hleap ⊢
    by_cases hl : 1000000000 ≤ t.nano.val
    · have := hleap hl
      rw [if_pos hl, if_pos (by omega)]
      exact Prod.ext (by omega) (by omega)
    · rw [if_neg hl, if_neg (by omega)]
      exact Prod.ext (by omega) (by omega)
  have htotal : t.day * 86400 +
      ((t.hour * 3600 + t.minute * 60 + t.second.val % 60 : ℕ) : ℤ) - 0 =
        t.day * 86400 + t.second.val := by
    unfold hour minute
    omega
  unfold Reading.assemble
  rw [if_pos ⟨isValid_civil t.day, hmin, hmax, t.hour_lt, Nat.mod_lt _ (by decide), hwritten⟩,
    hparts, dayNumber_civil]
  dsimp only
  rw [htotal, show (t.day * 86400 + t.second.val : ℤ) / 86400 = t.day by omega,
    show ((t.day * 86400 + t.second.val : ℤ) % 86400).toNat = t.second.val by omega, if_pos hday,
    ofParts_eq]

theorem text_eq (t : Timestamp) :
    t.text.toList = yearText (civil t.day).year ++ '-' :: (padded 2 (civil t.day).month ++
      '-' :: (padded 2 (civil t.day).day ++ 'T' :: (padded 2 t.hour ++ ':' :: (padded 2 t.minute ++
        ':' :: (padded 2 t.writtenSecond ++
          (fractionText (t.nano.val % nanosPerSecond) ++ ['Z'])))))) := by
  unfold text writtenSecond
  rw [String.toList_ofList]
  simp only [List.append_assoc, List.cons_append]

/-- **The text of an instant denotes the instant.** -/
theorem parse?_text (h : t.IsInstant) : parse? t.text = some t := by
  have hvalid := isValid_civil t.day
  have hhour := t.hour_lt
  have hminute : t.minute < 100 := (Nat.mod_lt _ (by decide)).trans (by decide : 60 < 100)
  have hsecond : t.writtenSecond < 100 := by
    unfold writtenSecond
    split <;> omega
  have hdays : daysInMonth (civil t.day).year (civil t.day).month ≤ 31 := by
    unfold daysInMonth
    split
    · split <;> omega
    · split <;> omega
  unfold Date.isValid at hvalid
  simp only [Bool.and_eq_true, decide_eq_true_eq] at hvalid
  have hmonth : (civil t.day).month < 100 := by omega
  have hday : (civil t.day).day < 100 := by omega
  have hnano : t.nano.val % nanosPerSecond < 1000000000 := Nat.mod_lt _ (by decide)
  unfold parse?
  rw [text_eq, Reading.date_text hmonth hday (noDigitAhead_cons (by decide : 'T'.isDigit = false))]
  show (Reading.time _).bind _ = _
  rw [Reading.time_text (by omega) hminute hsecond hnano]
  exact assemble_eq h

-- A text may be spelled in other ways, and a leap second is kept.
example : (parse? " 2024-3-6 1:2:60.5 z").map text = some "2024-03-06T01:02:60.500Z" := by
  decide +kernel

end Timestamp

/-! ## What texts denote -/

namespace Reading

variable {text rest : List Char}

/-- A fraction is less than a second. -/
theorem fraction_lt {nano : ℕ} (h : fraction text = some (nano, rest)) : nano < nanosPerSecond := by
  unfold fraction at h
  dsimp only at h
  split at h
  · cases h
  · cases h
    obtain ⟨kept, hkept⟩ : ∃ kept, kept = (text.takeWhile Char.isDigit).take 9 := ⟨_, rfl⟩
    have hdigits : ∀ c ∈ kept, c.isDigit = true := by
      intro c hc
      rw [hkept] at hc
      exact (List.all_eq_true.1 List.all_takeWhile) c (List.mem_of_mem_take hc)
    have hlength : kept.length ≤ 9 := by
      rw [hkept]
      exact List.length_take_le _ _
    rw [← hkept]
    calc valueOf kept * tenPow (9 - kept.length)
      _ < 10 ^ kept.length * tenPow (9 - kept.length) :=
        Nat.mul_lt_mul_of_pos_right (valueOf_lt hdigits) (tenPow_pos _)
      _ = 10 ^ 9 := by
        rw [show tenPow (9 - kept.length) = 10 ^ (9 - kept.length) from rfl, ← Nat.pow_add]
        congr 1
        omega
      _ = nanosPerSecond := rfl

theorem time_lt {hour minute second nano : ℕ}
    (h : time text = some ((hour, minute, second, nano), rest)) : nano < nanosPerSecond := by
  unfold time at h
  obtain ⟨⟨hour', text1⟩, -, h⟩ := Option.bind_eq_some_iff.1 h
  obtain ⟨text2, -, h⟩ := Option.bind_eq_some_iff.1 h
  obtain ⟨⟨minute', text3⟩, -, h⟩ := Option.bind_eq_some_iff.1 h
  obtain ⟨text4, -, h⟩ := Option.bind_eq_some_iff.1 h
  obtain ⟨⟨second', text5⟩, -, h⟩ := Option.bind_eq_some_iff.1 h
  dsimp only at h
  split at h
  · obtain ⟨⟨nano', text6⟩, hnano, h⟩ := Option.bind_eq_some_iff.1 h
    cases h
    exact fraction_lt hnano
  · cases h
    show 0 < nanosPerSecond
    decide

/-- An offset is a number of minutes. -/
theorem offset_mod {seconds : ℤ} (h : offset text = some (seconds, rest)) : seconds % 60 = 0 := by
  have hsigned : ∀ {sign : ℤ} {text rest : List Char} {seconds : ℤ},
      offset.signed sign text = some (seconds, rest) → seconds % 60 = 0 := by
    intro sign text rest seconds h
    unfold offset.signed at h
    obtain ⟨⟨hours, text1⟩, -, h⟩ := Option.bind_eq_some_iff.1 h
    obtain ⟨⟨minutes, text2⟩, -, h⟩ := Option.bind_eq_some_iff.1 h
    dsimp only at h
    split at h
    · cases h
      rw [show hours * 3600 + minutes * 60 = (hours * 60 + minutes) * 60 by omega, Nat.cast_mul,
        ← mul_assoc]
      exact Int.mul_emod_left _ _
    · cases h
  unfold offset at h
  split at h
  · cases h
    rfl
  · cases h
    rfl
  · split at h
    · cases h
      rfl
    · split at h
      · exact hsigned h
      · split at h
        · exact hsigned h
        · cases h
  · cases h

/-- **What is put together is an instant**: a second of nanoseconds more is noted only after the second
59, and an offset in minutes does not move it. -/
theorem isInstant_of_assemble {d : Date} {hour minute second nano : ℕ} {offset : ℤ} {t : Timestamp}
    (hnano : nano < nanosPerSecond) (hoffset : offset % 60 = 0)
    (h : assemble d hour minute second nano offset = some t) : t.IsInstant := by
  obtain ⟨⟨s, n⟩, hparts⟩ : ∃ parts, parts =
      if second = 60 then (59, nano + nanosPerSecond) else (second, nano) := ⟨_, rfl⟩
  have hn : n < 2 * nanosPerSecond ∧ (nanosPerSecond ≤ n → s = 59) := by
    split at hparts
    · cases hparts
      omega
    · cases hparts
      omega
  unfold assemble at h
  split at h
  · rw [← hparts] at h
    dsimp only at h
    split at h
    · rename_i hday
      cases h
      refine ⟨hday, ?_⟩
      intro hleap
      have hlt : n < 2000000000 := hn.1
      have hs : s = 59 := by
        change nanosPerSecond ≤ n % 2000000000 at hleap
        rw [Nat.mod_eq_of_lt hlt] at hleap
        exact hn.2 hleap
      show (_ % 86400) % 60 = 59
      omega
    · cases h
  · cases h

end Reading

namespace Timestamp

/-- **What a text denotes is an instant**, however the text is spelled. -/
theorem isInstant_of_parse? {text : String} {t : Timestamp} (h : parse? text = some t) :
    t.IsInstant := by
  unfold parse? at h
  obtain ⟨⟨d, rest⟩, -, h⟩ := Option.bind_eq_some_iff.1 h
  dsimp only at h
  split at h
  · cases h
  · split at h
    · obtain ⟨⟨⟨hour, minute, second, nano⟩, after⟩, htime, h⟩ := Option.bind_eq_some_iff.1 h
      obtain ⟨⟨offset, after⟩, hoffset, h⟩ := Option.bind_eq_some_iff.1 h
      dsimp only at h
      split at h
      · exact Reading.isInstant_of_assemble (Reading.time_lt htime) (Reading.offset_mod hoffset) h
      · cases h
    · cases h

end Timestamp

end QueryForecast.Time
