import WorldClock.Calendar.Season
import WorldClock.Json.Reader
import WorldClock.Json.Standard

/-!
# Talking to the weather service

A weather request names a world, the instant that stands for its game time, and its season. The
reply maps names of cells to lines of text; a cell without a line has `null`.
-/

namespace WorldClock

/-- A request to the weather service. -/
structure WeatherRequest where
  world : WorldId
  synthetic : Utc
  season : Season
deriving DecidableEq

namespace WeatherRequest

def toJson (r : WeatherRequest) : Json :=
  Json.ofMembers
    [("world_id", r.world.toJson), ("synthetic_time", r.synthetic.toJson),
      ("season", r.season.toJson)]

def bytes (r : WeatherRequest) : Bytes := r.toJson.bytes

end WeatherRequest

/-- The cells of a weather reply with their lines. -/
abbrev WeatherReply := List (String × Option String)

namespace WeatherReply

def ofJson? (j : Json) : Option WeatherReply :=
  match j with
  | .object members => members.mapM fun (raw, value) => do
    let name ← Json.stringText? raw
    let line ← Json.nullable? Json.toText? value
    return (name, line)
  | _ => none

def ofBytes? (bs : Bytes) : Option WeatherReply := (Json.read? bs).bind ofJson?

end WeatherReply

end WorldClock
