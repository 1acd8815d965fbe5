import WorldClock.Json.Record

/-!
# Kinds of world events

The log stores the tag of an event as text, so that it can hold events of other things too. World
events carry one of four tags.
-/

namespace WorldClock

/-- What has happened to a world. -/
inductive EventKind where
  | created
  | ticked
  | paused
  /-- It has caught up with a pause. -/
  | resumed
deriving DecidableEq, Repr, Inhabited

namespace EventKind

def all : List EventKind := [.created, .ticked, .paused, .resumed]

def name : EventKind → String
  | .created => "Created"
  | .ticked => "Ticked"
  | .paused => "Paused"
  | .resumed => "Resumed"

def tag : EventKind → String
  | .created => "world.created"
  | .ticked => "world.ticked"
  | .paused => "world.paused"
  | .resumed => "world.resumed"

def ofTag? (s : String) : Option EventKind := all.find? fun kind => kind.tag == s

def toJson (k : EventKind) : Json := Json.ofText k.name

def ofJson? (j : Json) : Option EventKind :=
  (Json.toName? j).bind fun s => all.find? fun kind => kind.name == s

theorem ofTag?_tag (k : EventKind) : ofTag? k.tag = some k := by
  cases k <;> decide

end EventKind

end WorldClock
