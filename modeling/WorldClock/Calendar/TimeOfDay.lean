import WorldClock.Binary64
import WorldClock.Json.Record

/-!
# Times of day

The sun's position is the part of the day that has passed, between zero and one. A table of bounds
divides it into times of day. After the last bound it is night again.
-/

namespace WorldClock

/-- A coarse time of day. -/
inductive TimeOfDay where
  | night
  | dawn
  | morning
  | noon
  | afternoon
  | dusk
  | evening
deriving DecidableEq, Repr, Inhabited

namespace TimeOfDay

def all : List TimeOfDay := [.night, .dawn, .morning, .noon, .afternoon, .dusk, .evening]

def name : TimeOfDay → String
  | .night => "Night"
  | .dawn => "Dawn"
  | .morning => "Morning"
  | .noon => "Noon"
  | .afternoon => "Afternoon"
  | .dusk => "Dusk"
  | .evening => "Evening"

def ofName? (s : String) : Option TimeOfDay := all.find? fun time => time.name == s

def toJson (t : TimeOfDay) : Json := Json.ofText t.name

def ofJson? (j : Json) : Option TimeOfDay := (Json.toName? j).bind ofName?

/-- The hundredths of a day at which each time of day but the last night ends, in ascending
order. -/
def ends : List (Nat × TimeOfDay) :=
  [(25, .night), (30, .dawn), (45, .morning), (55, .noon), (75, .afternoon), (80, .dusk),
    (90, .evening)]

def hundredths (n : Nat) : Binary64 := Binary64.ofDecimal false n (-2)

/-- The time of day for a position of the sun: the first whose end lies beyond it. -/
def ofSun (sun : Binary64) : TimeOfDay :=
  match ends.find? fun (bound, _) => sun.lt (hundredths bound) with
  | some (_, time) => time
  | none => .night

theorem ofName?_name (t : TimeOfDay) : ofName? t.name = some t := by
  cases t <;> decide

end TimeOfDay

end WorldClock
