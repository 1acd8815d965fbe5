import WorldClock.Binary64
import WorldClock.Event.Kind
import WorldClock.Identifier
import WorldClock.Instant.Text

/-!
# Notices

A process tells what it does in notices. Each has a level, a message and named fields. What fails on
the way is told as a warning and otherwise passed over.
-/

namespace WorldClock

/-- How much a notice matters. -/
inductive NoticeLevel where
  | info
  | warning
deriving DecidableEq, Repr

def NoticeLevel.name : NoticeLevel → String
  | .info => "INFO"
  | .warning => "WARN"

/-- The value of a notice's field. -/
inductive NoticeField where
  | text (s : String)
  | count (n : Nat)
  | real (x : Binary64)
deriving DecidableEq

/-- Something that a process tells about one world. -/
inductive WorldNotice where
  | created (name : String)
  | restored (events : Nat) (tickCount : Count)
  | historyReplayed (events : Nat)
  | resuming (version : Count) (pausedAt : Option Instant)
  | spawned (name : String) (dilation : Binary64) (units : Count)
  | catchingUp (units missedMillis : Count)
  | catchUpStopped (applied pending : Count)
  | caughtUp (applied : Count) (elapsedMillis : Nat)
  | tickerStopped (tickCount gameTimeMillis pendingUnits : Count)
  | leftPaused (name : String) (tickCount gameTimeMillis lastVersion : Count)
  | advanceFailed (error : String)
  | publishFailed (tick : Count) (error : String)
  | publishTimedOut (tick timeoutMillis : Count)
  | appendFailed (kind : EventKind) (version : Count) (error : String)
  | appendTimedOut (kind : EventKind) (version timeoutMillis : Count)
  | projectionFailed (error : String)
  | weatherMarkFailed (error : String)
  | weatherFailed (error : String)
  | weatherTimedOut (timeoutMillis : Count)
  | runMarkFailed (error : String)
  | tickerCrashed (error : String)
  | stopFailed (error : String)
deriving DecidableEq

/-- Something that a process tells. -/
inductive Notice where
  | world (id : WorldId) (notice : WorldNotice)
  | starting (tickIntervalMillis dayHours seasonDays : Count) (worlds : Nat)
  | memoryOnly
  | connecting (url : String)
  | connected
  | unconnected
  | weatherEnabled (subject : String)
  | allRunning (active : Nat)
  | shutdownRequested
  | stoppingAll (count : Nat)
  | flushFailed (error : String)
  | shutdownComplete (stopped : Nat)
deriving DecidableEq

namespace WorldNotice

def level : WorldNotice → NoticeLevel
  | created _ | restored _ _ | historyReplayed _ | resuming _ _ | spawned _ _ _ | catchingUp _ _
  | catchUpStopped _ _ | caughtUp _ _ | tickerStopped _ _ _ | leftPaused _ _ _ _ => .info
  | advanceFailed _ | publishFailed _ _ | publishTimedOut _ _ | appendFailed _ _ _
  | appendTimedOut _ _ _ | projectionFailed _ | weatherMarkFailed _ | weatherFailed _
  | weatherTimedOut _ | runMarkFailed _ | tickerCrashed _ | stopFailed _ => .warning

def message : WorldNotice → String
  | created _ => "World created"
  | restored _ _ => "Restored world state from event log"
  | historyReplayed _ => "World history replayed"
  | resuming _ _ => "Resuming world"
  | spawned _ _ _ => "Ticker spawned"
  | catchingUp _ _ => "Catching up missed ticks"
  | catchUpStopped _ _ => "Stopped during catch-up"
  | caughtUp _ _ => "Catch-up complete"
  | tickerStopped _ _ _ => "Ticker stopped"
  | leftPaused _ _ _ _ => "World paused"
  | advanceFailed _ => "Failed to advance world clock"
  | publishFailed _ _ => "Failed to publish tick snapshot"
  | publishTimedOut _ _ => "Timed out publishing tick snapshot"
  | appendFailed _ _ _ => "Failed to append event"
  | appendTimedOut _ _ _ => "Timed out appending event"
  | projectionFailed _ => "Projection failed"
  | weatherMarkFailed _ => "Failed to record weather marker"
  | weatherFailed _ => "Weather update failed"
  | weatherTimedOut _ => "Timed out updating weather"
  | runMarkFailed _ => "Failed to mark world running"
  | tickerCrashed _ => "Ticker task ended abnormally"
  | stopFailed _ => "Failed to stop ticker"

def countField (name : String) (n : Count) : String × NoticeField := (name, .count n.toNat)

def textField (name : String) (s : String) : String × NoticeField := (name, .text s)

def describeOption (t : Option Instant) : String :=
  match t with
  | none => "None"
  | some t => "Some(" ++ t.text ++ ")"

def fields : WorldNotice → List (String × NoticeField)
  | created name => [textField "name" name]
  | restored events ticks => [("events", .count events), countField "tick_count" ticks]
  | historyReplayed events => [("events", .count events)]
  | resuming version pausedAt =>
    [countField "version" version, textField "paused_at" (describeOption pausedAt)]
  | spawned name dilation units =>
    [textField "name" name, ("dilation_factor", .real dilation), countField "catch_up_units" units]
  | catchingUp units missed => [countField "units" units, countField "missed_ms" missed]
  | catchUpStopped applied pending =>
    [countField "applied" applied, countField "pending" pending]
  | caughtUp applied elapsed => [countField "applied" applied, ("elapsed_ms", .count elapsed)]
  | tickerStopped ticks gameTime pending =>
    [countField "tick_count" ticks, countField "game_time_ms" gameTime,
      countField "pending_units" pending]
  | leftPaused name ticks gameTime version =>
    [textField "name" name, countField "tick_count" ticks, countField "game_time_ms" gameTime,
      countField "last_version" version]
  | publishFailed tick error => [countField "tick" tick, textField "error" error]
  | publishTimedOut tick timeout => [countField "tick" tick, countField "timeout_ms" timeout]
  | appendFailed kind version error =>
    [textField "event_type" kind.tag, countField "version" version, textField "error" error]
  | appendTimedOut kind version timeout =>
    [textField "event_type" kind.tag, countField "version" version,
      countField "timeout_ms" timeout]
  | weatherTimedOut timeout => [countField "timeout_ms" timeout]
  | advanceFailed error | projectionFailed error | weatherMarkFailed error | weatherFailed error
  | runMarkFailed error | tickerCrashed error | stopFailed error => [textField "error" error]

end WorldNotice

namespace Notice

open WorldNotice (textField countField)

def level : Notice → NoticeLevel
  | world _ n => n.level
  | memoryOnly | flushFailed _ => .warning
  | _ => .info

def message : Notice → String
  | world _ n => n.message
  | starting _ _ _ _ => "worldtick-engine starting"
  | memoryOnly => "No postgres_url configured, events are kept in memory only"
  | connecting _ => "Connecting to NATS"
  | connected => "NATS connected"
  | unconnected => "No nats_url configured, snapshots and weather disabled"
  | weatherEnabled _ => "Weather collaborator enabled"
  | allRunning _ => "All tickers running"
  | shutdownRequested => "Shutdown signal received"
  | stoppingAll _ => "Stopping all tickers"
  | flushFailed _ => "Failed to flush NATS before exit"
  | shutdownComplete _ => "worldtick-engine shutdown complete"

def fields : Notice → List (String × NoticeField)
  | world id n => textField "world_id" id.text :: n.fields
  | starting interval hours days worlds =>
    [countField "tick_interval_ms" interval, countField "day_length_hours" hours,
      countField "season_length_days" days, ("worlds", .count worlds)]
  | connecting url => [textField "nats_url" url]
  | weatherEnabled subject => [textField "subject" subject]
  | allRunning active => [("active", .count active)]
  | stoppingAll count => [("count", .count count)]
  | flushFailed error => [textField "error" error]
  | shutdownComplete stopped => [("stopped", .count stopped)]
  | memoryOnly | connected | unconnected | shutdownRequested => []

def worldId? : Notice → Option WorldId
  | world id _ => some id
  | _ => none

end Notice

end WorldClock
