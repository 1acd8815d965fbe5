import WorldClock.Calendar.Season
import WorldClock.Calendar.TimeOfDay
import WorldClock.Instant.Utc

/-!
# Calendars

A `Calendar` gives the lengths of a day and of a season; both are positive. Everything else about a
moment of simulated time follows from the time that has passed: the sun's position is the part of
the current day, the season and its progress come from the part of the current year.
-/

namespace WorldClock

/-- The lengths of a day and of a season. -/
structure Calendar where
  dayLength : Duration
  seasonLength : Duration
  dayLength_pos : 0 < dayLength.nanos
  seasonLength_pos : 0 < seasonLength.nanos
deriving DecidableEq

/-- Why two lengths make no calendar. -/
inductive CalendarError where
  | emptyDay
  | emptySeason
deriving DecidableEq, Repr

def CalendarError.message : CalendarError → String
  | .emptyDay => "invalid calendar: day length must be positive"
  | .emptySeason => "invalid calendar: season length must be positive"

namespace Calendar

def ofLengths (day season : Duration) : Except CalendarError Calendar :=
  if hDay : 0 < day.nanos then
    if hSeason : 0 < season.nanos then .ok ⟨day, season, hDay, hSeason⟩
    else .error .emptySeason
  else .error .emptyDay

/-- The length of a year, the longest duration if it is longer still. -/
def yearLength (c : Calendar) : Duration := c.seasonLength.times Season.perYear

/-- The part of the current period that has passed, at least zero and less than one. A part that
would round up to one is the start of the next period. -/
def cycleFraction (value period : Nat) : Binary64 :=
  let fraction := (Binary64.ofNat (value % period)).div (Binary64.ofNat period)
  if fraction.lt Binary64.one then fraction else Binary64.zero

def sunPosition (c : Calendar) (gameTime : Duration) : Binary64 :=
  cycleFraction gameTime.nanos c.dayLength.nanos

def timeOfDay (c : Calendar) (gameTime : Duration) : TimeOfDay :=
  TimeOfDay.ofSun (c.sunPosition gameTime)

def intoYear (c : Calendar) (gameTime : Duration) : Nat :=
  gameTime.nanos % (c.seasonLength.nanos * Season.perYear)

theorem intoYear_div_lt (c : Calendar) (gameTime : Duration) :
    c.intoYear gameTime / c.seasonLength.nanos < Season.perYear := by
  have := c.seasonLength_pos
  rw [Nat.div_lt_iff_lt_mul this, Nat.mul_comm]
  exact Nat.mod_lt _ (Nat.mul_pos this (by decide))

def season (c : Calendar) (gameTime : Duration) : Season :=
  Season.ofIndex ⟨c.intoYear gameTime / c.seasonLength.nanos, c.intoYear_div_lt gameTime⟩

def seasonProgress (c : Calendar) (gameTime : Duration) : Binary64 :=
  cycleFraction (c.intoYear gameTime) c.seasonLength.nanos

end Calendar

/-- The time that stands for a moment of simulated time whose start stands for `epoch`; the last
time, where there is none so late. -/
def Utc.synthetic (epoch : Utc) (gameTime : Duration) : Utc :=
  ((offset? gameTime).bind epoch.add?).getD latest

end WorldClock
