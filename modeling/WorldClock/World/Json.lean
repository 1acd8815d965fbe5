import WorldClock.Json.Standard
import WorldClock.World.Basic

/-!
# Worlds in JSON

A world is a record of ten members. The last one, the game time of the last weather call, may be
missing and is zero then.
-/

namespace WorldClock

def Status.toJson (s : Status) : Json := Json.ofText s.name

def Status.ofJson? (j : Json) : Option Status := (Json.toName? j).bind ofName?

namespace World

def memberNames : List String :=
  ["id", "name", "status", "tick_count", "game_time", "dilation_factor", "created_at",
    "last_tick_at", "paused_at", "weather_synced_at"]

def toJson (w : World) : Json :=
  Json.ofMembers
    [("id", w.id.toJson), ("name", Json.ofText w.name), ("status", w.status.toJson),
      ("tick_count", Json.ofCount w.tickCount), ("game_time", w.gameTime.toJson),
      ("dilation_factor", Json.ofReal w.dilation), ("created_at", w.createdAt.toJson),
      ("last_tick_at", w.lastTickAt.toJson), ("paused_at", Json.ofOption Instant.toJson w.pausedAt),
      ("weather_synced_at", w.weatherSyncedAt.toJson)]

def ofJson? (j : Json) : Option World := do
  let r ← Json.record? memberNames false j
  return {
    id := ← r.required "id" WorldId.ofJson?
    name := ← r.required "name" Json.toText?
    status := ← r.required "status" Status.ofJson?
    tickCount := ← r.required "tick_count" Json.toCount?
    gameTime := ← r.required "game_time" Duration.ofJson?
    dilation := ← r.required "dilation_factor" Json.toReal?
    createdAt := ← r.required "created_at" Instant.ofJson?
    lastTickAt := ← r.required "last_tick_at" Instant.ofJson?
    pausedAt := ← r.nullable "paused_at" Instant.ofJson?
    weatherSyncedAt :=
      ← r.defaulted "weather_synced_at" Duration.zero Duration.ofJson? }

end World

end WorldClock
