/-!
# The calendar

Dates of the proleptic Gregorian calendar and their day numbers, counted from 1970-01-01.  Years are
taken from March to February, so that a leap day is the last day of its year, in cycles of 400 years.
The key facts: months have at least 28 days (`le_daysInMonth`) and a leap year one day more than
others (`daysInMonth_february`).
-/

namespace PropertyGraph

/-- A date: the month from 1 to 12 and the day of the month from 1 on, if it is valid. -/
structure Date where
  year : Int
  month : Int
  day : Int
deriving DecidableEq

namespace Calendar

/-- Every fourth year is a leap year, except the hundredth ones that are no four hundredth ones. -/
def isLeapYear (year : Int) : Bool :=
  (year % 4 == 0 && year % 100 != 0) || year % 400 == 0

/-- The number of days in a month, and zero if there is no such month. -/
def daysInMonth (year month : Int) : Int :=
  if month = 2 then (if isLeapYear year then 29 else 28)
  else if month = 4 ∨ month = 6 ∨ month = 9 ∨ month = 11 then 30
  else if 1 ≤ month ∧ month ≤ 12 then 31
  else 0

/-- The number of days in a cycle of 400 years. -/
def daysInCycle : Int := 146097

/-- The day number of 0000-03-01 is the negative of this. -/
def epochShift : Int := 719468

/-- The days from the first of March to the first of a month counted from March. -/
def daysBeforeMonth (monthFromMarch : Int) : Int := (153 * monthFromMarch + 2) / 5

theorem le_daysInMonth {year month : Int} (h : 1 ≤ month ∧ month ≤ 12) : 28 ≤ daysInMonth year month := by
  unfold daysInMonth
  repeat' split
  all_goals omega

theorem daysInMonth_february (year : Int) : daysInMonth year 2 = 28 + (isLeapYear year).toNat := by
  unfold daysInMonth
  cases isLeapYear year <;> rfl

end Calendar

namespace Date

open Calendar

/-- A date is valid if its year has the month and the month the day. -/
def Valid (d : Date) : Prop :=
  1 ≤ d.month ∧ d.month ≤ 12 ∧ 1 ≤ d.day ∧ d.day ≤ daysInMonth d.year d.month

instance (d : Date) : Decidable d.Valid := inferInstanceAs (Decidable (_ ∧ _))

/-- The day number of a date, 1970-01-01 being day 0. -/
def toDays (d : Date) : Int :=
  let year := if d.month ≤ 2 then d.year - 1 else d.year
  let month := if d.month ≤ 2 then d.month + 9 else d.month - 3
  let yearOfCycle := year % 400
  let dayOfYear := daysBeforeMonth month + d.day - 1
  let dayOfCycle := yearOfCycle * 365 + yearOfCycle / 4 - yearOfCycle / 100 + dayOfYear
  year / 400 * daysInCycle + dayOfCycle - epochShift

/-- The date with a day number.  A cycle of 400 years is four centuries of 36524 days, the last with
one day more; a century is a row of fours of years with 1461 days; and four years have 365 days each,
the last one day more. -/
def ofDays (days : Int) : Date :=
  let shifted := days + epochShift
  let dayOfCycle := shifted % daysInCycle
  let century := min 3 (dayOfCycle / 36524)
  let dayOfCentury := dayOfCycle - century * 36524
  let dayOfFour := dayOfCentury % 1461
  let yearOfFour := min 3 (dayOfFour / 365)
  let dayOfYear := dayOfFour - yearOfFour * 365
  let year := shifted / daysInCycle * 400 + century * 100 + dayOfCentury / 1461 * 4 + yearOfFour
  let month := (5 * dayOfYear + 2) / 153
  { year := if month < 10 then year else year + 1
    month := if month < 10 then month + 3 else month - 9
    day := dayOfYear - daysBeforeMonth month + 1 }

end Date

end PropertyGraph
