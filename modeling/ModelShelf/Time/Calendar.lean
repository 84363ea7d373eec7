/-!
Dates of the calendar without a break, and the number of days between them. The count starts at
the first day of 1970.
-/

namespace ModelShelf.Time

/-- A day of the calendar. -/
structure Date where
  year : Int
  month : Nat
  day : Nat
deriving DecidableEq, Repr

def isLeapYear (year : Int) : Bool := year % 4 = 0 && (year % 100 ≠ 0 || year % 400 = 0)

/-- The days of a month, zero for a number that names none. -/
def daysInMonth (year : Int) (month : Nat) : Nat :=
  match month with
  | 1 | 3 | 5 | 7 | 8 | 10 | 12 => 31
  | 4 | 6 | 9 | 11 => 30
  | 2 => if isLeapYear year then 29 else 28
  | _ => 0

/-- The years that dates may have. -/
def leastYear : Int := -262143
def greatestYear : Int := 262142

def Date.isValid (d : Date) : Bool :=
  leastYear ≤ d.year && d.year ≤ greatestYear && 1 ≤ d.day && d.day ≤ daysInMonth d.year d.month

/-- The days in a cycle of 400 years. -/
def cycleDays : Int := 146097

/-- The days from the first day of March of year zero to the first day of 1970. -/
def epochOffset : Int := 719468

/-- The number of a day. Years are counted from March, so that a leap day ends its year. -/
def Date.toDays (d : Date) : Int :=
  let year := if d.month ≤ 2 then d.year - 1 else d.year
  let cycle := year.fdiv 400
  let yearOfCycle := year - cycle * 400
  let month : Int := if d.month ≤ 2 then d.month + 9 else (d.month : Int) - 3
  let dayOfYear := (153 * month + 2) / 5 + d.day - 1
  let dayOfCycle := yearOfCycle * 365 + yearOfCycle / 4 - yearOfCycle / 100 + dayOfYear
  cycle * cycleDays + dayOfCycle - epochOffset

/-- The date of a day's number. -/
def Date.ofDays (days : Int) : Date :=
  let shifted := days + epochOffset
  let cycle := shifted.fdiv cycleDays
  let dayOfCycle := shifted - cycle * cycleDays
  let yearOfCycle :=
    (dayOfCycle - dayOfCycle / 1460 + dayOfCycle / 36524 - dayOfCycle / 146096) / 365
  let dayOfYear := dayOfCycle - (365 * yearOfCycle + yearOfCycle / 4 - yearOfCycle / 100)
  let month := (5 * dayOfYear + 2) / 153
  let day := (dayOfYear - (153 * month + 2) / 5 + 1).toNat
  let month := if month < 10 then (month + 3).toNat else (month - 9).toNat
  let year := yearOfCycle + cycle * 400
  ⟨if month ≤ 2 then year + 1 else year, month, day⟩

end ModelShelf.Time
