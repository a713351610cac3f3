/-!
# Dates

Dates of the Gregorian calendar, extended to all years from -262143 to 262142. A date and the number
of days from 1970-01-01 determine each other; both directions count years from the first of March,
so that a leap day is the last day of its year.
-/
namespace TypedTables

def isLeapYear (year : Int) : Bool := year % 4 == 0 && (year % 100 != 0 || year % 400 == 0)

def monthLength (year : Int) (month : Nat) : Nat :=
  if month = 2 then (if isLeapYear year then 29 else 28)
  else if month = 4 || month = 6 || month = 9 || month = 11 then 30
  else 31

def leastYear : Int := -262143

def greatestYear : Int := 262142

structure Date where
  year : Int
  month : Nat
  day : Nat
  year_mem : leastYear ≤ year ∧ year ≤ greatestYear
  month_mem : 1 ≤ month ∧ month ≤ 12
  day_mem : 1 ≤ day ∧ day ≤ monthLength year month
  deriving DecidableEq

namespace Date

def of? (year : Int) (month day : Nat) : Option Date :=
  if h : (leastYear ≤ year ∧ year ≤ greatestYear) ∧ (1 ≤ month ∧ month ≤ 12) ∧
      (1 ≤ day ∧ day ≤ monthLength year month) then
    some ⟨year, month, day, h.1, h.2.1, h.2.2⟩
  else none

def eraDays : Int := 146097

/-- The days from the first of March of the year 0 to 1970-01-01. -/
def epochOffset : Int := 719468

/-- The number of days of a year, counted from March, before a month, counted from March. -/
def daysBeforeMonth (month : Nat) : Nat := (153 * month + 2) / 5

/-- The number of days before a year, counted from March, of an era of 400 years. -/
def daysBeforeYear (year : Nat) : Nat := 365 * year + year / 4 - year / 100

/-- The days from 1970-01-01 to the date. -/
def dayNumber (d : Date) : Int :=
  let year : Int := if d.month ≤ 2 then d.year - 1 else d.year
  let month := (d.month + 9) % 12
  let inEra : Nat :=
    daysBeforeYear (year % 400).toNat + daysBeforeMonth month + (d.day - 1)
  year / 400 * eraDays + inEra - epochOffset

/-- The year of an era of 400 years, and the day of it, that a day of the era falls on. -/
def yearOfEra (n : Nat) : Nat × Nat :=
  let century := min (n / 36524) 3
  let n := n - century * 36524
  let fourYears := n / 1461
  let n := n % 1461
  let year := min (n / 365) 3
  (century * 100 + fourYears * 4 + year, n - year * 365)

/-- The date that lies so many days after 1970-01-01. -/
def ofDayNumber? (n : Int) : Option Date :=
  let n := n + epochOffset
  let (yearOfEra, dayOfYear) := yearOfEra (n % eraDays).toNat
  let month := (5 * dayOfYear + 2) / 153
  let day := dayOfYear - daysBeforeMonth month + 1
  let year : Int := n / eraDays * 400 + yearOfEra
  if month < 10 then of? year (month + 3) day else of? (year + 1) (month - 9) day

end Date

end TypedTables
