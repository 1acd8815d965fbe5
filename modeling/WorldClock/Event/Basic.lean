import WorldClock.Event.Details

/-!
# Events

An `Event` records that something happened to an aggregate, here mostly a world. Each aggregate
counts its events with versions from one on. The payload is opaque to the log.
-/

namespace WorldClock

/-- A record of the event log. -/
structure Event where
  id : EventId
  tag : String
  aggregateId : String
  aggregateType : String
  version : Count
  timestamp : Instant
  payload : Bytes
deriving DecidableEq, Inhabited

namespace Event

def worldType : String := "world"

def ofWorld (world : WorldId) (version : Count) (now : Instant) (details : Details) : Event where
  id := ⟨Identifier.timeOrdered now version.toNat⟩
  tag := details.kind.tag
  aggregateId := world.text
  aggregateType := worldType
  version := version
  timestamp := now
  payload := details.bytes

/-- A world event of any kind, whatever it tells. -/
def ofKind (world : WorldId) (kind : EventKind) (version : Count) (now : Instant)
    (details : Details) : Event :=
  { ofWorld world version now details with tag := kind.tag }

def kind? (e : Event) : Option EventKind :=
  if e.aggregateType = worldType then EventKind.ofTag? e.tag else none

def details? (e : Event) (k : EventKind) : Option Details := Details.ofBytes? k e.payload

def memberNames : List String :=
  ["id", "event_type", "aggregate_id", "aggregate_type", "version", "timestamp", "payload"]

def byteToJson (b : UInt8) : Json := Json.ofNat b.toNat

def byteOfJson? (j : Json) : Option UInt8 := (Json.toNatUpTo? 255 j).map UInt8.ofNat

/-- An event as a record; its payload is an array of numbers. -/
def toJson (e : Event) : Json :=
  Json.ofMembers
    [("id", e.id.toJson), ("event_type", Json.ofText e.tag),
      ("aggregate_id", Json.ofText e.aggregateId),
      ("aggregate_type", Json.ofText e.aggregateType), ("version", Json.ofCount e.version),
      ("timestamp", e.timestamp.toJson), ("payload", .array (e.payload.map byteToJson))]

def ofJson? (j : Json) : Option Event := do
  let r ← Json.record? memberNames false j
  return {
    id := ← r.required "id" EventId.ofJson?
    tag := ← r.required "event_type" Json.toText?
    aggregateId := ← r.required "aggregate_id" Json.toText?
    aggregateType := ← r.required "aggregate_type" Json.toText?
    version := ← r.required "version" Json.toCount?
    timestamp := ← r.required "timestamp" Instant.ofJson?
    payload := ← r.required "payload" (Json.toItems? byteOfJson?) }

theorem kind?_ofKind (world : WorldId) (kind : EventKind) (version : Count) (now : Instant)
    (d : Details) : (ofKind world kind version now d).kind? = some kind := by
  simp [kind?, ofKind, ofWorld, EventKind.ofTag?_tag]

theorem kind?_ofWorld (world : WorldId) (version : Count) (now : Instant) (d : Details) :
    (ofWorld world version now d).kind? = some d.kind := by
  simp [kind?, ofWorld, EventKind.ofTag?_tag]

end Event

end WorldClock
