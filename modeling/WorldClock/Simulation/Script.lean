import WorldClock.Ticker.Basic
import WorldClock.WeatherExchange

/-!
# Scripted collaborators

In a simulation the publisher, the weather service and the log follow scripts: one act for each
call, the last act again and again.
-/

namespace WorldClock

/-- What a scripted collaborator does with a call. -/
inductive Act where
  | succeed
  | fail
  | hang
  | panic
  /-- It waits and then does it. -/
  | delay (millis : Nat)
  /-- It does it and then waits. -/
  | late (millis : Nat)
  /-- It asks the calling ticker to stop and succeeds. -/
  | stop
  /-- It ends a weather call with these bytes. -/
  | reply (bytes : Bytes)
deriving DecidableEq, Inhabited

/-- The acts of a collaborator, in the order of its calls. -/
structure Script where
  acts : List Act
deriving DecidableEq, Inhabited

/-- The act for the next call, and the script from then on. A script without acts always
succeeds. -/
def Script.next (s : Script) : Act × Script :=
  match s.acts with
  | [] => (.succeed, s)
  | [act] => (act, s)
  | act :: rest => (act, ⟨rest⟩)

/-- How the collaborators of a simulated process behave. -/
structure Scripts where
  publish : Script
  weather : Script
  append : Script
  read : Script
  publishReason : String
  weatherReason : String
  logReason : String
deriving DecidableEq, Inhabited

def WeatherReply.reply (bs : Bytes) : Reply CallError :=
  match ofBytes? bs with
  | some _ => .answered
  | none => .failed .weatherReply

end WorldClock
