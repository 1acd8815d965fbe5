import WorldClock.Decimal.Layout
import WorldClock.Event.History
import WorldClock.Manager.Basic

/-!
# Descriptions for diagnosis

One-line descriptions of the parts of a program, in the form `Name { field: value, .. }`.
Parts that have nothing to show end in two dots.
-/

namespace WorldClock

namespace Describe

/-- A description with named parts; `more` says that some are not shown. -/
def parts (name : String) (fields : List (String × String)) (more : Bool) : String :=
  let shown := fields.map fun (field, value) => field ++ ": " ++ value
  let shown := if more then shown ++ [".."] else shown
  name ++ " \x7b " ++ String.intercalate ", " shown ++ " \x7d"

def flag (b : Bool) : String := if b then "true" else "false"

def count (n : Count) : String := Decimal.text n.toNat

def items (texts : List String) : String := "[" ++ String.intercalate ", " texts ++ "]"

def quoted (s : String) : String := "\"" ++ s ++ "\""

def worldId (w : WorldId) : String := "WorldId(" ++ w.text ++ ")"

def historyReader (m : ScanMode) : String := parts "ReplayEngine" [("mode", m.name)] true

def dispatcher {σ : Type} (d : Dispatcher σ) : String :=
  parts "ProjectionDispatcher" [("projections", items (d.projections.map fun p => quoted p.name))]
    false

def databaseLog : String := "PgEventLog \x7b .. \x7d"

def emptyRegistry : String :=
  parts "WorldClockRegistry"
    [("worlds", parts "RwLock" [("data", "\x7b\x7d"), ("poisoned", flag false)] true)] false

def collaborators (publishes asksWeather projects : Bool) : String :=
  parts "TickerDeps"
    [("registry", emptyRegistry), ("broadcaster", flag publishes), ("weather", flag asksWeather),
      ("projections", flag projects)] true

def clock (c : ClockSettings) : String :=
  parts "ClockConfig"
    [("tick_interval_ms", count c.tickIntervalMillis), ("day_length_hours", count c.dayHours),
      ("season_length_days", count c.seasonDays),
      ("weather_interval_minutes", count c.weatherMinutes),
      ("catch_up_yield_every", count c.yieldEvery),
      ("side_effect_timeout_ms", count c.timeoutMillis),
      ("emit_created_on_resume", flag c.announceResume), ("calendar_epoch", c.epoch.text)] false

def calendar (c : Calendar) : String :=
  parts "Calendar"
    [("day_length", c.dayLength.describe), ("season_length", c.seasonLength.describe)] false

def manager (p : Manager) : String :=
  let w := p.wiring
  let context := parts "TickerContext"
    [("clock", clock w.clock), ("calendar", calendar w.calendar),
      ("deps", collaborators w.publishes w.asksWeather p.surroundings.projections.isSome)] false
  parts "TickerManager" [("ctx", context), ("active", items (p.activeWorlds.map worldId))] true

def ticker (t : Ticker) : String :=
  parts "Ticker"
    [("world_id", worldId t.world), ("dilation_factor", Layout.diagnostic.text t.dilation),
      ("game_time_delta", t.delta.describe), ("version", count t.version),
      ("last_weather_game_time", t.weatherSyncedAt.describe)] true

end Describe

end WorldClock
