/-!
# The calendar

Days are counted from 1 January 1970 in the Gregorian calendar, extended to all years. A year is
taken to begin in March, so that the leap day is its last one; then every run of 400 years, and
inside it every month, has a closed formula.
-/

namespace QueryForecast.Time

/-- A date of the calendar. -/
structure Date where
  year : Int
  month : Nat
  day : Nat
  deriving DecidableEq, Repr

/-- Whether a year has a leap day. -/
def isLeapYear (year : Int) : Bool :=
  year % 4 == 0 && (year % 100 != 0 || year % 400 == 0)

/-- The number of days in a month. -/
def daysInMonth (year : Int) (month : Nat) : Nat :=
  if month = 2 then if isLeapYear year then 29 else 28
  else if month = 4 ∨ month = 6 ∨ month = 9 ∨ month = 11 then 30
  else 31

/-- Whether a date is in the calendar. -/
def Date.isValid (d : Date) : Bool :=
  1 ≤ d.month && d.month ≤ 12 && 1 ≤ d.day && d.day ≤ daysInMonth d.year d.month

/-- The number of days from 1 January 1970 to a date. -/
def Date.dayNumber (d : Date) : Int :=
  let year := if d.month ≤ 2 then d.year - 1 else d.year
  let cycle := year / 400
  let yearOfCycle := year % 400
  let dayOfYear := (153 * ((d.month + 9) % 12) + 2) / 5 + d.day - 1
  cycle * 146097 + (yearOfCycle * 365 + yearOfCycle / 4 - yearOfCycle / 100 + dayOfYear) - 719468

/-- The date that many days after 1 January 1970. -/
def civil (dayNumber : Int) : Date :=
  let shifted := dayNumber + 719468
  let cycle := shifted / 146097
  let dayOfCycle := (shifted % 146097).toNat
  let yearOfCycle :=
    (dayOfCycle - dayOfCycle / 1460 + dayOfCycle / 36524 - dayOfCycle / 146096) / 365
  let dayOfYear := dayOfCycle - (365 * yearOfCycle + yearOfCycle / 4 - yearOfCycle / 100)
  let monthFromMarch := (5 * dayOfYear + 2) / 153
  let month := if monthFromMarch < 10 then monthFromMarch + 3 else monthFromMarch - 9
  { year := cycle * 400 + yearOfCycle + (if month ≤ 2 then 1 else 0)
    month := month
    day := dayOfYear - (153 * monthFromMarch + 2) / 5 + 1 }

/-- The day of the week, Monday being 0. The first day of 1970 was a Thursday. -/
def weekdayFromMonday (dayNumber : Int) : Nat :=
  ((dayNumber + 3) % 7).toNat

/-- The day of the week, Sunday being 0. -/
def weekdayFromSunday (dayNumber : Int) : Nat :=
  ((dayNumber + 4) % 7).toNat

end QueryForecast.Time
