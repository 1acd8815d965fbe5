import WorldClock.Calendar.Basic
import WorldClock.Json.Standard
import WorldClock.World.Basic

/-!
# Tick snapshots

After each tick a snapshot of the world is published. It holds the world's totals and what the
calendar says about them.
-/

namespace WorldClock

/-- What is published about a world after a tick. -/
structure Snapshot where
  world : WorldId
  tick : Count
  gameTimeMillis : Count
  /-- The instant of the tick in milliseconds since 1970. -/
  realTimeMillis : Int
  dilation : Binary64
  timeOfDay : TimeOfDay
  sunPosition : Binary64
  season : Season
  seasonProgress : Binary64
deriving DecidableEq

def Calendar.snapshot (c : Calendar) (w : World) : Snapshot where
  world := w.id
  tick := w.tickCount
  gameTimeMillis := w.gameTime.toMillis
  realTimeMillis := w.lastTickAt.millis
  dilation := w.dilation
  timeOfDay := c.timeOfDay w.gameTime
  sunPosition := c.sunPosition w.gameTime
  season := c.season w.gameTime
  seasonProgress := c.seasonProgress w.gameTime

namespace Snapshot

def memberNames : List String :=
  ["world_id", "tick_number", "game_time_ms", "real_time_ms", "dilation_factor", "time_of_day",
    "sun_position", "current_season", "season_progress"]

def leastMillis : Int := -(2 ^ 63)

def greatestMillis : Int := 2 ^ 63 - 1

def toJson (s : Snapshot) : Json :=
  Json.ofMembers
    [("world_id", s.world.toJson), ("tick_number", Json.ofCount s.tick),
      ("game_time_ms", Json.ofCount s.gameTimeMillis),
      ("real_time_ms", Json.ofInt s.realTimeMillis), ("dilation_factor", Json.ofReal s.dilation),
      ("time_of_day", s.timeOfDay.toJson), ("sun_position", Json.ofReal s.sunPosition),
      ("current_season", s.season.toJson), ("season_progress", Json.ofReal s.seasonProgress)]

def ofJson? (j : Json) : Option Snapshot := do
  let r ← Json.record? memberNames false j
  return {
    world := ← r.required "world_id" WorldId.ofJson?
    tick := ← r.required "tick_number" Json.toCount?
    gameTimeMillis := ← r.required "game_time_ms" Json.toCount?
    realTimeMillis := ← r.required "real_time_ms" (Json.toIntBetween? leastMillis greatestMillis)
    dilation := ← r.required "dilation_factor" Json.toReal?
    timeOfDay := ← r.required "time_of_day" TimeOfDay.ofJson?
    sunPosition := ← r.required "sun_position" Json.toReal?
    season := ← r.required "current_season" Season.ofJson?
    seasonProgress := ← r.required "season_progress" Json.toReal? }

def bytes (s : Snapshot) : Bytes := s.toJson.bytes

end Snapshot

end WorldClock
