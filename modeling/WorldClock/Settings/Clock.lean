import WorldClock.Binary64
import WorldClock.Calendar.Basic

/-!
# Clock settings

How often worlds tick, how long their days and seasons are, and how the things a tick sets in
motion are limited.
-/

namespace WorldClock

/-- Settings shared by all tickers. -/
structure ClockSettings where
  tickIntervalMillis : Count
  dayHours : Count
  seasonDays : Count
  weatherMinutes : Count
  /-- Ticks made up for before others get a turn. -/
  yieldEvery : Count
  /-- Real milliseconds after which a publication, an append or a weather call is given up. -/
  timeoutMillis : Count
  /-- Whether resuming a world adds an event of its creation. -/
  announceResume : Bool
  /-- The time that stands for the start of simulated time. -/
  epoch : Utc
deriving DecidableEq

namespace ClockSettings

def defaultEpoch : Utc := ⟨946684800, 0, by decide, by decide, .inl (by decide)⟩

def standard : ClockSettings where
  tickIntervalMillis := 100
  dayHours := 24
  seasonDays := 90
  weatherMinutes := 30
  yieldEvery := 64
  timeoutMillis := 1000
  announceResume := true
  epoch := defaultEpoch

instance : Inhabited ClockSettings := ⟨standard⟩

def secondsTimes (n : Count) (seconds : Nat) : Duration :=
  Duration.ofSeconds (Count.ofNat (n.toNat * seconds))

def tickInterval (c : ClockSettings) : Duration := Duration.ofMillis c.tickIntervalMillis

def dayLength (c : ClockSettings) : Duration := secondsTimes c.dayHours 3600

def seasonLength (c : ClockSettings) : Duration := secondsTimes c.seasonDays 86400

def weatherInterval (c : ClockSettings) : Duration := secondsTimes c.weatherMinutes 60

def timeout (c : ClockSettings) : Duration := Duration.ofMillis c.timeoutMillis

def calendar (c : ClockSettings) : Except CalendarError Calendar :=
  Calendar.ofLengths c.dayLength c.seasonLength

def positiveSettings (c : ClockSettings) : List (String × Count) :=
  [("tick_interval_ms", c.tickIntervalMillis), ("day_length_hours", c.dayHours),
    ("season_length_days", c.seasonDays), ("weather_interval_minutes", c.weatherMinutes),
    ("catch_up_yield_every", c.yieldEvery), ("side_effect_timeout_ms", c.timeoutMillis)]

def zeroSetting? (c : ClockSettings) : Option String :=
  (c.positiveSettings.find? fun (_, value) => value == 0).map (·.1)

/-- Simulated time that one tick adds under a dilation, to the nearest nanosecond; none if the
dilation is not positive or the time is no 64-bit number of nanoseconds. -/
def tickDelta? (interval : Duration) (dilation : Binary64) : Option Duration :=
  let product := (Binary64.ofNat interval.nanos).mul dilation
  if dilation.isPositive ∧ product.isFinite ∧ product.roundToNat < 2 ^ 64 then
    some (Duration.ofNanos product.roundToNat)
  else none

end ClockSettings

end WorldClock
