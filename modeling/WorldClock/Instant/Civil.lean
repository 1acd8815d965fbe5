/-!
# Civil dates

Days are numbered from 1 January 1970. `Civil.ofDays` and `Civil.toDays` convert between that
number and a date of the Gregorian calendar, extended to all years.

* `toDays_ofDays`: no day is lost on the way to a date and back.
-/

namespace WorldClock

/-- A date of the extended Gregorian calendar. The year before year 1 is year 0. -/
structure Civil where
  year : Int
  month : Nat
  day : Nat
deriving DecidableEq, Repr

namespace Civil

def isLeap (year : Int) : Bool :=
  decide (year % 4 = 0 ∧ (year % 100 ≠ 0 ∨ year % 400 = 0))

def daysBeforeYear (year : Int) : Int :=
  365 * (year - 1) + (year - 1) / 4 - (year - 1) / 100 + (year - 1) / 400 - 719162

def monthLengths (leap : Bool) : List Nat :=
  [31, if leap then 29 else 28, 31, 30, 31, 30, 31, 31, 30, 31, 30, 31]

/-- Days in one month of a year; none in a month that does not exist. -/
def daysInMonth (leap : Bool) (month : Nat) : Nat :=
  if month = 0 then 0 else ((monthLengths leap)[month - 1]?).getD 0

/-- Days of a year before one of its months. -/
def daysBeforeMonth (leap : Bool) (month : Nat) : Nat :=
  ((monthLengths leap).take (month - 1)).foldl (· + ·) 0

def yearOfDay (days : Int) : Int :=
  let guess := (days + 719162) * 400 / 146097 + 1
  if days < daysBeforeYear guess then guess - 1
  else if daysBeforeYear (guess + 1) ≤ days then guess + 1
  else guess

/-- The month that holds a day of a year, days being counted from zero. -/
def monthOfDay (leap : Bool) (dayOfYear : Nat) : Nat :=
  ((List.range' 1 12).find? fun m => decide (dayOfYear < daysBeforeMonth leap (m + 1))).getD 12

def ofDays (days : Int) : Civil :=
  let year := yearOfDay days
  let leap := isLeap year
  let dayOfYear := (days - daysBeforeYear year).toNat
  let month := monthOfDay leap dayOfYear
  ⟨year, month, dayOfYear - daysBeforeMonth leap month + 1⟩

def toDays (c : Civil) : Int :=
  daysBeforeYear c.year + daysBeforeMonth (isLeap c.year) c.month + c.day - 1

def isValid (c : Civil) : Bool :=
  decide (1 ≤ c.day ∧ c.day ≤ daysInMonth (isLeap c.year) c.month)

/-- A year has begun on each of its days. -/
theorem daysBeforeYear_yearOfDay_le (days : Int) : daysBeforeYear (yearOfDay days) ≤ days := by
  simp only [yearOfDay]
  split
  · simp only [daysBeforeYear] at *
    omega
  · split
    · assumption
    · omega

/-- The next year has not begun on any day of a year. -/
theorem lt_daysBeforeYear_succ (days : Int) : days < daysBeforeYear (yearOfDay days + 1) := by
  simp only [yearOfDay]
  split
  · rename_i h
    simpa using h
  · split
    · simp only [daysBeforeYear] at *
      omega
    · omega

/-- A month has begun on each of its days. -/
theorem daysBeforeMonth_monthOfDay_le (leap : Bool) (n : Nat) :
    daysBeforeMonth leap (monthOfDay leap n) ≤ n := by
  cases leap <;>
  · simp only [monthOfDay, List.range', List.find?_cons, List.find?_nil, daysBeforeMonth,
      monthLengths]
    simp only [Nat.reduceAdd, Nat.reduceSub, List.take, List.foldl_cons, List.foldl_nil]
    repeat' split
    all_goals simp_all

/-- The date of a day leads back to the day. -/
theorem toDays_ofDays (days : Int) : (ofDays days).toDays = days := by
  have hyear := daysBeforeYear_yearOfDay_le days
  have hmonth := daysBeforeMonth_monthOfDay_le (isLeap (yearOfDay days))
    (days - daysBeforeYear (yearOfDay days)).toNat
  simp only [toDays, ofDays]
  omega

end Civil

end WorldClock
