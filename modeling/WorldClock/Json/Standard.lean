import WorldClock.Identifier
import WorldClock.Instant.Text
import WorldClock.Json.Record

/-!
# JSON forms of times and identifiers

A duration is a closed record of seconds and nanoseconds, where a whole second of nanoseconds is
carried over. An instant and an identifier are texts.
-/

namespace WorldClock

/-- The greatest number of nanoseconds that is read beside the seconds of a duration. -/
def Duration.greatestPart : Nat := 2 ^ 32 - 1

def Duration.toJson (d : Duration) : Json :=
  Json.ofMembers [("secs", Json.ofNat d.seconds), ("nanos", Json.ofNat d.subsecond)]

def Duration.ofJson? (j : Json) : Option Duration := do
  let r ← Json.record? ["secs", "nanos"] true j
  let seconds ← r.required "secs" Json.toCount?
  let part ← r.required "nanos" (Json.toNatUpTo? greatestPart)
  ofNanos? (seconds.toNat * nanosPerSecond + part)

def Utc.toJson (u : Utc) : Json := Json.ofText u.text

def Instant.toJson (t : Instant) : Json := Json.ofText t.text

def Instant.ofJson? (j : Json) : Option Instant := (Json.toText? j).bind ofText?

def WorldId.toJson (w : WorldId) : Json := Json.ofText w.text

def WorldId.ofJson? (j : Json) : Option WorldId := (Json.toText? j).bind ofText?

def EventId.toJson (e : EventId) : Json := Json.ofText e.text

def EventId.ofJson? (j : Json) : Option EventId := (Json.toText? j).bind ofText?

end WorldClock
