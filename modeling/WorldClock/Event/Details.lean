import WorldClock.Event.Kind
import WorldClock.Json.Reader
import WorldClock.Json.Standard

/-!
# What world events tell

Each kind of world event carries a record of its own, in JSON.
-/

namespace WorldClock

/-- What is told when a ticker is spawned for a world. -/
structure CreatedDetails where
  name : String
  dilation : Binary64
  resumed : Bool
deriving DecidableEq

/-- What is told of a tick. -/
structure TickedDetails where
  tickCount : Count
  /-- Simulated time after the tick, in nanoseconds. -/
  gameTimeNanos : Count
  /-- Simulated time that the tick added, in nanoseconds. -/
  tickNanos : Count
  /-- The tick made up for one missed in a pause. -/
  catchUp : Bool
deriving DecidableEq

/-- What is told when a ticker is stopped. -/
structure PausedDetails where
  tickCount : Count
  /-- Simulated time so far, in nanoseconds. -/
  gameTimeNanos : Count
  /-- The instant from which the next resumption catches up. -/
  pausedAt : Option Instant
  /-- The game time of the last weather call, in nanoseconds. -/
  weatherSyncedNanos : Count
deriving DecidableEq

/-- What is told when a world has caught up with a pause. -/
structure ResumedDetails where
  replayedUnits : Count
  missedMillis : Count
deriving DecidableEq

namespace CreatedDetails

def toJson (d : CreatedDetails) : Json :=
  Json.ofMembers
    [("name", Json.ofText d.name), ("dilation_factor", Json.ofReal d.dilation),
      ("resumed", .bool d.resumed)]

def ofJson? (j : Json) : Option CreatedDetails := do
  let r ← Json.record? ["name", "dilation_factor", "resumed"] false j
  return {
    name := ← r.required "name" Json.toText?
    dilation := ← r.required "dilation_factor" Json.toReal?
    resumed := ← r.defaulted "resumed" false Json.toBool? }

end CreatedDetails

namespace TickedDetails

def toJson (d : TickedDetails) : Json :=
  Json.ofMembers
    [("tick_count", Json.ofCount d.tickCount), ("game_time_ns", Json.ofCount d.gameTimeNanos),
      ("tick_duration_ns", Json.ofCount d.tickNanos), ("catch_up", .bool d.catchUp)]

def ofJson? (j : Json) : Option TickedDetails := do
  let r ← Json.record? ["tick_count", "game_time_ns", "tick_duration_ns", "catch_up"] false j
  return {
    tickCount := ← r.required "tick_count" Json.toCount?
    gameTimeNanos := ← r.required "game_time_ns" Json.toCount?
    tickNanos := ← r.required "tick_duration_ns" Json.toCount?
    catchUp := ← r.defaulted "catch_up" false Json.toBool? }

def gameTime (d : TickedDetails) : Duration := Duration.ofNanoCount d.gameTimeNanos

end TickedDetails

namespace PausedDetails

def toJson (d : PausedDetails) : Json :=
  Json.ofMembers
    [("tick_count", Json.ofCount d.tickCount), ("game_time_ns", Json.ofCount d.gameTimeNanos),
      ("paused_at", Json.ofOption Instant.toJson d.pausedAt),
      ("weather_synced_at_ns", Json.ofCount d.weatherSyncedNanos)]

def ofJson? (j : Json) : Option PausedDetails := do
  let r ← Json.record? ["tick_count", "game_time_ns", "paused_at", "weather_synced_at_ns"] false j
  return {
    tickCount := ← r.required "tick_count" Json.toCount?
    gameTimeNanos := ← r.required "game_time_ns" Json.toCount?
    pausedAt := ← r.defaulted "paused_at" none (Json.nullable? Instant.ofJson?)
    weatherSyncedNanos := ← r.defaulted "weather_synced_at_ns" 0 Json.toCount? }

def gameTime (d : PausedDetails) : Duration := Duration.ofNanoCount d.gameTimeNanos

def weatherSyncedAt (d : PausedDetails) : Duration := Duration.ofNanoCount d.weatherSyncedNanos

end PausedDetails

namespace ResumedDetails

def toJson (d : ResumedDetails) : Json :=
  Json.ofMembers
    [("replayed_units", Json.ofCount d.replayedUnits),
      ("missed_real_ms", Json.ofCount d.missedMillis)]

def ofJson? (j : Json) : Option ResumedDetails := do
  let r ← Json.record? ["replayed_units", "missed_real_ms"] false j
  return {
    replayedUnits := ← r.required "replayed_units" Json.toCount?
    missedMillis := ← r.required "missed_real_ms" Json.toCount? }

end ResumedDetails

/-- What a world event tells, by its kind. -/
inductive Details where
  | created (details : CreatedDetails)
  | ticked (details : TickedDetails)
  | paused (details : PausedDetails)
  | resumed (details : ResumedDetails)
deriving DecidableEq

namespace Details

def kind : Details → EventKind
  | .created _ => .created
  | .ticked _ => .ticked
  | .paused _ => .paused
  | .resumed _ => .resumed

def toJson : Details → Json
  | .created d => d.toJson
  | .ticked d => d.toJson
  | .paused d => d.toJson
  | .resumed d => d.toJson

def ofJson? (k : EventKind) (j : Json) : Option Details :=
  match k with
  | .created => (CreatedDetails.ofJson? j).map .created
  | .ticked => (TickedDetails.ofJson? j).map .ticked
  | .paused => (PausedDetails.ofJson? j).map .paused
  | .resumed => (ResumedDetails.ofJson? j).map .resumed

def bytes (d : Details) : Bytes := d.toJson.bytes

def ofBytes? (k : EventKind) (bs : Bytes) : Option Details := (Json.read? bs).bind (ofJson? k)

end Details

end WorldClock
