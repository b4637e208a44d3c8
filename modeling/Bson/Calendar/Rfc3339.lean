import Bson.Calendar.Date
import Bson.Text.Numeral
import Bson.Text.Scan

/-!
# Instants in the form of RFC 3339

An instant is a number of milliseconds from the start of 1970, in UTC.

* `Rfc3339.text`: date, time and a zone mark; milliseconds appear when they are not zero. Years
  outside 0 to 9999 carry a sign.
* `Rfc3339.read?`: the instant of a text with any offset from UTC below a day. A second 60 counts
  as second 59 and a thousand milliseconds more.
-/

namespace Bson.Calendar.Rfc3339

open Bson.Text (Scan)
open Bson.Text.Scan

/-- The milliseconds of a day. -/
def dayMillis : Int := 86400000

/-- The date on which an instant lies. -/
def dateOf (millis : Int) : Date := .ofDays (millis / dayMillis)

/-- The decimal digits of a number, filled up with zeros to a width. -/
def padded (width n : Nat) : String :=
  let ds := Nat.toDigits 10 n
  String.ofList (List.replicate (width - ds.length) '0' ++ ds)

/-- A year with four digits at least, and a sign outside 0 to 9999. -/
def yearText (year : Int) : String :=
  if 0 ≤ year ∧ year ≤ 9999 then padded 4 year.toNat
  else (if year < 0 then "-" else "+") ++ padded 4 year.natAbs

/-- The text of an instant with a mark for the zone. -/
def text (zone : String) (millis : Int) : String :=
  let date := dateOf millis
  let ofDay := (millis % dayMillis).toNat
  let seconds := ofDay / 1000
  let fraction := ofDay % 1000
  yearText date.year ++ "-" ++ padded 2 date.month ++ "-" ++ padded 2 date.day ++ "T" ++
    padded 2 (seconds / 3600) ++ ":" ++ padded 2 (seconds / 60 % 60) ++ ":" ++
    padded 2 (seconds % 60) ++ (if fraction = 0 then "" else "." ++ padded 3 fraction) ++ zone

/-- A number of exactly the given count of digits. -/
def number (width : Nat) : Scan Nat := do
  let ds ← count width Char.isDigit
  return (Text.digitsValue? 10 ds).getD 0

/-- A two-digit number up to a greatest value. -/
def field (greatest : Nat) : Scan Nat := do
  let n ← number 2
  if n ≤ greatest then pure n else failure

/-- A date of the calendar. -/
def date : Scan Date := do
  let year ← number 4
  char '-'
  let month ← number 2
  char '-'
  let day ← number 2
  let d : Date := ⟨year, month, day⟩
  if d.isValid then pure d else failure

/-- The milliseconds of a fraction of a second, rounded down. -/
def fractionMillis : Scan Nat := do
  match ← peek? with
  | some '.' =>
    char '.'
    let ds ← takeWhile1 Char.isDigit
    return (Text.digitsValue? 10 ((ds ++ ['0', '0']).take 3)).getD 0
  | _ => return 0

/-- A time of day in milliseconds. -/
def time : Scan Nat := do
  let hour ← field 23
  char ':'
  let minute ← field 59
  char ':'
  let second ← field 60
  let millis ← fractionMillis
  return (hour * 3600 + minute * 60 + min second 59) * 1000 +
    (if second = 60 then 1000 else 0) + millis

/-- The sign of an offset; the minus sign of typography counts as a hyphen. -/
def offsetSign : Scan Int := do
  let c ← satisfy fun c => c = '+' ∨ c = '-' ∨ c = '\u2212'
  return if c = '+' then 1 else -1

/-- An offset from UTC in minutes. -/
def offset : Scan Int := do
  match ← peek? with
  | some 'Z' | some 'z' =>
    let _ ← satisfy fun _ => true
    return 0
  | _ =>
    let sign ← offsetSign
    let hours ← field 23
    char ':'
    let minutes ← field 59
    return sign * (hours * 60 + minutes : Nat)

/-- An instant: date, time and offset. -/
def instant : Scan Int := do
  let d ← date
  let _ ← satisfy fun c => c = 'T' ∨ c = 't' ∨ c = ' '
  let ofDay ← time
  let minutes ← offset
  return d.toDays * dayMillis + ofDay - minutes * 60000

/-- The instant that a text gives. -/
def read? (s : String) : Option Int := run? instant s

end Bson.Calendar.Rfc3339
