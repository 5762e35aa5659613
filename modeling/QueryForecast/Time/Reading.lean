import QueryForecast.Decimal.Reading
import QueryForecast.Text.Blank
import QueryForecast.Time.Timestamp

/-!
# Reading timestamps

Timestamps are written as `2024-03-06T14:30:00+02:00`, with some freedom: `t` or a blank may stand
for the `T`, numbers need not be padded, the year may have a sign and then any number of digits,
blanks may stand before every number and sign, a fraction may follow the second, and the offset is
`Z`, `UTC` or hours and minutes with or without a colon. Second and offset must be there.
-/

namespace QueryForecast.Time

open Decimal Numeric Text

namespace Reading

/-- At least one and at most `width` digits from the front of the text. -/
def digits (width : Nat) (text : List Char) : Option (Nat × List Char) :=
  let run := (text.take width).takeWhile Char.isDigit
  if run.isEmpty then none else some (valueOf run, text.drop run.length)

/-- A number of at most `width` digits after blanks. -/
def field (width : Nat) (text : List Char) : Option (Nat × List Char) :=
  digits width (trimStart text)

/-- A mark after blanks. -/
def mark (c : Char) (text : List Char) : Option (List Char) :=
  match trimStart text with
  | c' :: rest => if c = c' then some rest else none
  | [] => none

/-- A year after blanks: up to four digits, or a sign and any number of them. -/
def year (text : List Char) : Option (Int × List Char) :=
  match trimStart text with
  | '-' :: rest => (digits rest.length rest).map fun (n, rest) => (-(n : Int), rest)
  | '+' :: rest => (digits rest.length rest).map fun (n, rest) => ((n : Int), rest)
  | rest => (digits 4 rest).map fun (n, rest) => ((n : Int), rest)

/-- The date at the front of the text. -/
def date (text : List Char) : Option (Date × List Char) := do
  let (year, text) ← year text
  let (month, text) ← field 2 (← mark '-' text)
  let (day, text) ← field 2 (← mark '-' text)
  return (⟨year, month, day⟩, text)

/-- The nanoseconds of a fraction, whose point has been read: nine digits count, the others are
skipped. -/
def fraction (text : List Char) : Option (Nat × List Char) :=
  let run := text.takeWhile Char.isDigit
  if run.isEmpty then none
  else
    let kept := run.take 9
    some (valueOf kept * tenPow (9 - kept.length), text.drop run.length)

/-- The time of day at the front of the text, as hour, minute, second and nanoseconds. -/
def time (text : List Char) : Option ((Nat × Nat × Nat × Nat) × List Char) := do
  let (hour, text) ← field 2 text
  let (minute, text) ← field 2 (← mark ':' text)
  let (second, text) ← field 2 (← mark ':' text)
  let (nano, text) ← match text with
    | '.' :: rest => fraction rest
    | rest => some (0, rest)
  return ((hour, minute, second, nano), text)

/-- Two digits that must follow at once. -/
def twoDigits : List Char → Option (Nat × List Char)
  | a :: b :: rest =>
    if a.isDigit ∧ b.isDigit then some (10 * digitValue a + digitValue b, rest) else none
  | _ => none

/-- Whether a character may separate the hours and minutes of an offset. -/
def isSeparator (c : Char) : Bool :=
  c == ':' || isBlank c

/-- An offset from universal time in seconds, less than a day. -/
def offset (text : List Char) : Option (Int × List Char) :=
  match text with
  | 'Z' :: rest => some (0, rest)
  | 'z' :: rest => some (0, rest)
  | u :: t :: c :: rest =>
    if u.toUpper = 'U' ∧ t.toUpper = 'T' ∧ c.toUpper = 'C' then some (0, rest)
    else if u = '+' then signed 1 (t :: c :: rest)
    else if u = '-' ∨ u = '−' then signed (-1) (t :: c :: rest)
    else none
  | _ => none
where
  /-- Hours and minutes after the sign. -/
  signed (sign : Int) (text : List Char) : Option (Int × List Char) := do
    let (hours, text) ← twoDigits text
    let (minutes, text) ← twoDigits (text.dropWhile isSeparator)
    if minutes < 60 ∧ hours < 24 then return (sign * (hours * 3600 + minutes * 60 : Nat), text)
    else none

/-- The instant at which clocks with the given offset show a date and time. The second 60 is a leap
second. -/
def assemble (d : Date) (hour minute second nano : Nat) (offset : Int) : Option Timestamp :=
  if d.isValid ∧ minYear ≤ d.year ∧ d.year ≤ maxYear ∧ hour < 24 ∧ minute < 60 ∧ second ≤ 60 then
    let (second, nano) := if second = 60 then (59, nano + nanosPerSecond) else (second, nano)
    let total := d.dayNumber * 86400 + (hour * 3600 + minute * 60 + second : Nat) - offset
    if isSupportedDay (total / 86400) then
      some (.ofParts (total / 86400) (total % 86400).toNat nano)
    else none
  else none

end Reading

/-- The timestamp that a text denotes. -/
def Timestamp.parse? (text : String) : Option Timestamp := do
  let (d, rest) ← Reading.date text.toList
  match rest with
  | [] => none
  | c :: rest =>
    if c = 't' ∨ c = 'T' ∨ c = ' ' then
      let ((hour, minute, second, nano), rest) ← Reading.time rest
      let (offset, rest) ← Reading.offset (trimStart rest)
      if (trimStart rest).isEmpty then Reading.assemble d hour minute second nano offset else none
    else none

end QueryForecast.Time
