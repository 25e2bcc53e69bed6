/-!
The Gregorian calendar, extended to all years.  Days are counted from
1970-01-01.  Years are taken to begin in March, so that a leap day is the last
day of its year, and in groups of 400, after which the calendar repeats:
`Date.ofDays` and `Date.toDays` divide by these periods and multiply back.
-/
namespace Logline

/-- A day of the Gregorian calendar; months and days count from one. -/
structure Date where
  year : Int
  month : Nat
  day : Nat
deriving DecidableEq, Repr

namespace Date

/-- The number of days in 400 years. -/
def cycle : Nat := 146097

/-- The days from the first of March of the year zero to 1970-01-01. -/
def epochShift : Nat := 719468

/-- The days before a year of a cycle. -/
def daysBefore (yearOfCycle : Nat) : Nat :=
  365 * yearOfCycle + yearOfCycle / 4 - yearOfCycle / 100

/-- The days before a month of a year that begins in March. -/
def daysBeforeMonth (month : Nat) : Nat :=
  (153 * month + 2) / 5

/-- The year of a cycle that holds a day of the cycle. -/
def yearOfCycle (dayOfCycle : Nat) : Nat :=
  (dayOfCycle - dayOfCycle / 1460 + dayOfCycle / 36524 - dayOfCycle / 146096) /
    365

/-- The date of a day. -/
def ofDays (days : Int) : Date :=
  let shifted := days + epochShift
  let dayOfCycle := (shifted % cycle).toNat
  let year := yearOfCycle dayOfCycle
  let dayOfYear := dayOfCycle - daysBefore year
  let month := (5 * dayOfYear + 2) / 153
  let january := 10 ≤ month
  { year := shifted / cycle * 400 + year + if january then 1 else 0
    month := if january then month - 9 else month + 3
    day := dayOfYear - daysBeforeMonth month + 1 }

/-- The day of a date. -/
def toDays (date : Date) : Int :=
  let january := date.month ≤ 2
  let year := if january then date.year - 1 else date.year
  let month := if january then date.month + 9 else date.month - 3
  year / 400 * cycle + daysBefore (year % 400).toNat + daysBeforeMonth month +
  date.day - 1 -
    epochShift

def isLeapYear (year : Int) : Bool :=
  year % 4 == 0 && (year % 100 != 0 || year % 400 == 0)

def daysInMonth (year : Int) (month : Nat) : Nat :=
  if month = 2 then if isLeapYear year then 29 else 28
  else if month = 4 ∨ month = 6 ∨ month = 9 ∨ month = 11 then 30
  else 31

/-- The month and the day of the month exist. -/
def isValid (date : Date) : Bool :=
  1 ≤ date.month && date.month ≤ 12 && 1 ≤ date.day &&
    date.day ≤ daysInMonth date.year date.month

/-- The day of the year, from one. -/
def ordinal (date : Date) : Nat :=
  (date.toDays - toDays ⟨date.year, 1, 1⟩).toNat + 1

/-- The day of the week of a day, Sunday being zero. -/
def daysFromSunday (days : Int) : Nat :=
  ((days + 4) % 7).toNat

/-- The day of the week of a day, Monday being zero. -/
def daysFromMonday (days : Int) : Nat :=
  ((days + 3) % 7).toNat

/-- The year of the ISO 8601 week of a day, and its number in that year.  A
week belongs to the year that holds its Thursday. -/
def isoWeek (days : Int) : Int × Nat :=
  let thursday := ofDays (days - daysFromMonday days + 3)
  (thursday.year, (thursday.ordinal - 1) / 7 + 1)

example : ofDays 0 = ⟨1970, 1, 1⟩ := by decide

example : ofDays 19782 = ⟨2024, 2, 29⟩ := by decide

example : toDays ⟨2024, 2, 29⟩ = 19782 := by decide

example : ofDays (-719529) = ⟨-1, 12, 31⟩ := by decide

end Date

end Logline
