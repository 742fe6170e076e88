import SqlQuery.Decimal.Layout

/-!
# Moments of the calendar

A `Timestamp` is a date of the proleptic Gregorian calendar, which has a year zero, with a time of
day in nanoseconds. Any second may be followed by a leap second, which the clock shows as the next
number: as second 60 at the end of a minute, and as the second after it elsewhere. Validity is part
of the type.
-/

namespace SqlQuery.Calendar

/-- Every fourth year is a leap year, but of the years that end a century only every fourth. -/
def isLeapYear (year : Int) : Bool := year % 4 = 0 && (year % 100 ≠ 0 || year % 400 = 0)

def daysInMonth (year : Int) (month : Nat) : Nat :=
  if month = 2 then (if isLeapYear year then 29 else 28)
  else if month = 4 ∨ month = 6 ∨ month = 9 ∨ month = 11 then 30
  else 31

/-- The dates of the calendar, from the year -262143 to the year 262142. -/
def ValidDate (year : Int) (month day : Nat) : Prop :=
  (-262143 ≤ year ∧ year ≤ 262142) ∧ (1 ≤ month ∧ month ≤ 12) ∧ 1 ≤ day ∧ day ≤ daysInMonth year month

instance (year : Int) (month day : Nat) : Decidable (ValidDate year month day) := by
  unfold ValidDate; infer_instance

/-- The times of a day; from 1000000000 on, the nanoseconds of a second are those of a leap second
after it. -/
def ValidTime (hour minute second subsecond : Nat) : Prop :=
  hour < 24 ∧ minute < 60 ∧ second < 60 ∧ subsecond < 2000000000

instance (hour minute second subsecond : Nat) : Decidable (ValidTime hour minute second subsecond) := by
  unfold ValidTime; infer_instance

structure Timestamp where
  year : Int
  month : Nat
  day : Nat
  hour : Nat
  minute : Nat
  second : Nat
  /-- The nanoseconds since the second began. -/
  subsecond : Nat
  validDate : ValidDate year month day
  validTime : ValidTime hour minute second subsecond
  deriving DecidableEq

namespace Timestamp

/-- The moment with the given date and time, if there is one. -/
def of? (year : Int) (month day hour minute second subsecond : Nat) : Option Timestamp :=
  if h : ValidDate year month day ∧ ValidTime hour minute second subsecond then
    some ⟨year, month, day, hour, minute, second, subsecond, h.1, h.2⟩
  else none

/-- The same time on the day before, which the calendar's first day does not have. -/
def dayBefore? (t : Timestamp) : Option Timestamp :=
  if 1 < t.day then of? t.year t.month (t.day - 1) t.hour t.minute t.second t.subsecond
  else if 1 < t.month then
    of? t.year (t.month - 1) (daysInMonth t.year (t.month - 1)) t.hour t.minute t.second t.subsecond
  else of? (t.year - 1) 12 31 t.hour t.minute t.second t.subsecond

/-- The same time on the day after, which the calendar's last day does not have. -/
def dayAfter? (t : Timestamp) : Option Timestamp :=
  if t.day < daysInMonth t.year t.month then of? t.year t.month (t.day + 1) t.hour t.minute t.second t.subsecond
  else if t.month < 12 then of? t.year (t.month + 1) 1 t.hour t.minute t.second t.subsecond
  else of? (t.year + 1) 1 1 t.hour t.minute t.second t.subsecond

/-- Moves a moment back by less than a day, given in minutes. -/
def subtractMinutes? (t : Timestamp) (minutes : Int) : Option Timestamp := do
  let shifted := (t.hour * 60 + t.minute : Int) - minutes
  let t ← if shifted < 0 then t.dayBefore? else if 1440 ≤ shifted then t.dayAfter? else some t
  let ofDay := (shifted % 1440).toNat
  of? t.year t.month t.day (ofDay / 60) (ofDay % 60) t.second t.subsecond

/-- The second that the clock shows, which counts a leap second as one more. -/
def clockSecond (t : Timestamp) : Nat := t.second + t.subsecond / 1000000000

/-- The nanoseconds of the second that the clock shows. -/
def nano (t : Timestamp) : Nat := t.subsecond % 1000000000

/-- A year has four digits; outside of 0 to 9999 it has a sign and at least four. -/
def yearText (year : Int) : String :=
  if 0 ≤ year ∧ year ≤ 9999 then Decimal.padded 4 year.toNat
  else (if year < 0 then "-" else "+") ++ Decimal.padded 4 year.natAbs

def dateText (t : Timestamp) : String :=
  yearText t.year ++ "-" ++ Decimal.padded 2 t.month ++ "-" ++ Decimal.padded 2 t.day

def clockText (t : Timestamp) : String :=
  Decimal.padded 2 t.hour ++ ":" ++ Decimal.padded 2 t.minute ++ ":" ++ Decimal.padded 2 t.clockSecond

/-- The date and the time to the millisecond, cut off, with a mark between them. -/
def text (mark : String) (t : Timestamp) : String :=
  t.dateText ++ mark ++ t.clockText ++ "." ++ Decimal.padded 3 (t.nano / 1000000)

end Timestamp

end SqlQuery.Calendar
