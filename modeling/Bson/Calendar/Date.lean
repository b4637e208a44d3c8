/-!
# Dates of the Gregorian calendar

Dates carried back and forward without a break, and their number of days from 1970-01-01.

* `Date.toDays` counts whole years, whole months and days; `Date.ofDays` undoes it.
* The year of a day comes from the mean length of a year, which is off by one year at most.
-/

namespace Bson.Calendar

/-- A year, a month from 1 and a day from 1. -/
structure Date where
  year : Int
  month : Nat
  day : Nat
  deriving DecidableEq

/-- Whether a year has a 29 February. -/
def isLeap (year : Int) : Bool := year % 4 = 0 ∧ (year % 100 ≠ 0 ∨ year % 400 = 0)

/-- The days from the first day of year 0 to the first day of a year. -/
def daysBeforeYear (year : Int) : Int :=
  365 * year + (year + 3) / 4 - (year + 99) / 100 + (year + 399) / 400

/-- The lengths of the months of a year. -/
def monthLengths (year : Int) : List Nat :=
  [31, if isLeap year then 29 else 28, 31, 30, 31, 30, 31, 31, 30, 31, 30, 31]

/-- The days from the first day of a year to the first day of a month of it. -/
def daysBeforeMonth (year : Int) (month : Nat) : Nat :=
  ((monthLengths year).take (month - 1)).foldl (· + ·) 0

/-- The length of a month of a year; 0 if there is no such month. -/
def monthLength (year : Int) (month : Nat) : Nat :=
  if month = 0 then 0 else (monthLengths year).getD (month - 1) 0

/-- The days from the first day of year 0 to 1970-01-01. -/
def epoch : Int := 719528

/-- The year that a day lies in, counted from the first day of year 0. -/
def yearOfDay (n : Int) : Int :=
  let guess := 400 * n / 146097
  if n < daysBeforeYear guess then guess - 1
  else if daysBeforeYear (guess + 1) ≤ n then guess + 1
  else guess

/-- The month and the day of the month, from the number of a day in months of given lengths; the
months are counted on from a given one. -/
def monthAndDay : List Nat → Nat → Nat → Nat × Nat
  | [], month, n => (month, n + 1)
  | length :: rest, month, n =>
    if n < length then (month, n + 1) else monthAndDay rest (month + 1) (n - length)

namespace Date

/-- Whether the date is in the calendar. -/
def isValid (d : Date) : Bool := 1 ≤ d.day ∧ d.day ≤ monthLength d.year d.month

/-- The days from 1970-01-01 to a date. -/
def toDays (d : Date) : Int :=
  daysBeforeYear d.year + daysBeforeMonth d.year d.month + (d.day - 1 : Int) - epoch

/-- The date that lies a number of days after 1970-01-01. -/
def ofDays (n : Int) : Date :=
  let year := yearOfDay (n + epoch)
  let (month, day) := monthAndDay (monthLengths year) 1 (n + epoch - daysBeforeYear year).toNat
  ⟨year, month, day⟩

end Date

end Bson.Calendar
