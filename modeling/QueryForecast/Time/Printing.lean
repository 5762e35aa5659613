import QueryForecast.Time.Reading

/-!
# Writing timestamps

Timestamps are written in universal time, as `2024-03-06T12:30:00Z`. A fraction of a second has
three, six or nine digits, the fewest that are exact. Years outside 0 to 9999 have a sign.
-/

namespace QueryForecast.Time

open Decimal

/-- The digits of a number, with zeros in front up to the given width. -/
def padded (width n : Nat) : List Char :=
  let digits := digitsOf n
  List.replicate (width - digits.length) '0' ++ digits

/-- The text of a year. -/
def yearText (year : Int) : List Char :=
  if year < 0 then '-' :: padded 4 year.natAbs
  else if 9999 < year then '+' :: padded 4 year.natAbs
  else padded 4 year.natAbs

/-- The text of a fraction of a second, empty when it is zero. -/
def fractionText (nano : Nat) : List Char :=
  if nano = 0 then []
  else if nano % 1000000 = 0 then '.' :: padded 3 (nano / 1000000)
  else if nano % 1000 = 0 then '.' :: padded 6 (nano / 1000)
  else '.' :: padded 9 nano

/-- The text of a timestamp. -/
def Timestamp.text (t : Timestamp) : String :=
  let d := civil t.day
  let leap := nanosPerSecond ≤ t.nano.val
  let second := t.second.val % 60 + (if leap then 1 else 0)
  String.ofList <|
    yearText d.year ++ '-' :: padded 2 d.month ++ '-' :: padded 2 d.day ++
      'T' :: padded 2 t.hour ++ ':' :: padded 2 t.minute ++ ':' :: padded 2 second ++
      fractionText (t.nano.val % nanosPerSecond) ++ ['Z']

end QueryForecast.Time
