import FrameAlign.Decimal.Fixed

/-!
# Calendar dates

The proleptic Gregorian calendar in Coordinated Universal Time, counted from 1970-01-01. A year of
the calculation starts in March, so that the leap day is the last day of its year; an era is 400
such years, which always have 146097 days.
-/

namespace FrameAlign

/-- A day of the calendar. -/
structure CivilDate where
  year : Int
  month : Nat
  day : Nat
deriving DecidableEq

/-- A moment of the calendar to the nanosecond. -/
structure CivilTime where
  date : CivilDate
  hour : Nat
  minute : Nat
  second : Nat
  nanosecond : Nat
deriving DecidableEq

namespace CivilDate

/-- The date that lies `days` days after 1970-01-01. -/
def ofDays (days : Int) : CivilDate :=
  let shifted := days + 719468
  let era := shifted.fdiv 146097
  let dayOfEra := (shifted.fmod 146097).toNat
  let yearOfEra := (dayOfEra - dayOfEra / 1460 + dayOfEra / 36524 - dayOfEra / 146096) / 365
  let dayOfYear := dayOfEra - (365 * yearOfEra + yearOfEra / 4 - yearOfEra / 100)
  let shiftedMonth := (5 * dayOfYear + 2) / 153
  let month := if shiftedMonth < 10 then shiftedMonth + 3 else shiftedMonth - 9
  { year := Int.ofNat yearOfEra + era * 400 + (if month ≤ 2 then 1 else 0)
    month
    day := dayOfYear - (153 * shiftedMonth + 2) / 5 + 1 }

/-- A year has four digits; one outside 0 to 9999 is written with its sign. -/
def yearText (year : Int) : String :=
  let digits := Columns.zeros 4 year.natAbs
  if year < 0 then "-" ++ digits else if 9999 < year then "+" ++ digits else digits

end CivilDate

namespace CivilTime

/-- The moment `nanos` nanoseconds after the start of 1970. -/
def ofNanos (nanos : Int) : CivilTime :=
  let seconds := nanos.fdiv 1000000000
  let secondOfDay := (seconds.fmod 86400).toNat
  { date := CivilDate.ofDays (seconds.fdiv 86400)
    hour := secondOfDay / 3600
    minute := secondOfDay / 60 % 60
    second := secondOfDay % 60
    nanosecond := (nanos.fmod 1000000000).toNat }

/-- Date and time of day to the second, `2024-03-05T14:07:09`. -/
def toSecondsText (t : CivilTime) : String :=
  CivilDate.yearText t.date.year ++ "-" ++ Columns.zeros 2 t.date.month ++ "-" ++
    Columns.zeros 2 t.date.day ++ "T" ++ Columns.zeros 2 t.hour ++ ":" ++
    Columns.zeros 2 t.minute ++ ":" ++ Columns.zeros 2 t.second

/-- Date and time of day with nine decimals of a second. -/
def toText (t : CivilTime) : String :=
  t.toSecondsText ++ "." ++ Columns.zeros 9 t.nanosecond

/-- The fraction of a second in groups of three decimals, as many as it needs. -/
def fractionText (t : CivilTime) : String :=
  if t.nanosecond = 0 then ""
  else if t.nanosecond % 1000000 = 0 then "." ++ Columns.zeros 3 (t.nanosecond / 1000000)
  else if t.nanosecond % 1000 = 0 then "." ++ Columns.zeros 6 (t.nanosecond / 1000)
  else "." ++ Columns.zeros 9 t.nanosecond

/-- Date, time of day and offset from Universal Time, as reports carry them. -/
def toOffsetText (t : CivilTime) : String :=
  t.toSecondsText ++ t.fractionText ++ "+00:00"

/-- Date and time to the second without separators that a file name could not hold. -/
def toFileStamp (t : CivilTime) : String :=
  CivilDate.yearText t.date.year ++ Columns.zeros 2 t.date.month ++ Columns.zeros 2 t.date.day ++
    "_" ++ Columns.zeros 2 t.hour ++ Columns.zeros 2 t.minute ++ Columns.zeros 2 t.second

end CivilTime

end FrameAlign
