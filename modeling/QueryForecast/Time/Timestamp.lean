import QueryForecast.Time.Calendar

/-!
# Timestamps

An instant of universal time: a day, a second of the day, and nanoseconds within the second. A leap
second is the second before it with nanoseconds from `10^9` up.
-/

namespace QueryForecast.Time

/-- Nanoseconds in a second. -/
def nanosPerSecond : Nat := 1000000000

/-- An instant of universal time. -/
structure Timestamp where
  day : Int
  second : Fin 86400
  nano : Fin 2000000000
  deriving DecidableEq, Repr

/-- The instant at a second of a day, and nanoseconds within the second. -/
def Timestamp.ofParts (day : Int) (second nano : Nat) : Timestamp where
  day := day
  second := Fin.ofNat 86400 second
  nano := Fin.ofNat 2000000000 nano

/-- The instant that many nanoseconds after the start of 1970; leap seconds are not counted. -/
def Timestamp.ofNanos (nanos : Int) : Timestamp :=
  .ofParts (nanos / (86400 * nanosPerSecond)) (nanos / nanosPerSecond % 86400).toNat
    (nanos % nanosPerSecond).toNat

/-- The hour of the day, 0 to 23. -/
def Timestamp.hour (t : Timestamp) : Nat :=
  t.second.val / 3600

/-- The minute of the hour. -/
def Timestamp.minute (t : Timestamp) : Nat :=
  t.second.val / 60 % 60

/-- The years that a timestamp may lie in. -/
def minYear : Int := -262143

/-- The last year that a timestamp may lie in. -/
def maxYear : Int := 262142

/-- Whether a day lies in the supported years. -/
def isSupportedDay (day : Int) : Bool :=
  (Date.mk minYear 1 1).dayNumber ≤ day && day ≤ (Date.mk maxYear 12 31).dayNumber

theorem Timestamp.hour_lt (t : Timestamp) : t.hour < 24 := by
  have := t.second.isLt
  unfold Timestamp.hour
  omega

end QueryForecast.Time
