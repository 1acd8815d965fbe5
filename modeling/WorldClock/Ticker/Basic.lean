import WorldClock.CatchUp
import WorldClock.Event.Log
import WorldClock.Settings.Clock
import WorldClock.StopSignal
import WorldClock.World.Snapshot

/-!
# Tickers

A `Ticker` drives the clock of one world. Each tick updates the registry, publishes a snapshot,
appends an event and, when enough simulated time has passed, asks for the weather. Publishing,
appending and asking take time, so a ticker is always in some `Phase`: about to go on by itself, or
waiting for a reply.

An append is held in a `Filing`: the event, and what the log has said of it once it has it. A reply
may be late or lost, but it never says more than the log did.
-/

namespace WorldClock

/-- A moment of a process. -/
structure Moment where
  wall : Instant
  /-- Nanoseconds since the process started; they only grow. -/
  uptime : Nat
deriving DecidableEq, Inhabited

/-- What all tickers of a process are told. -/
structure Wiring where
  clock : ClockSettings
  calendar : Calendar
  publishes : Bool
  asksWeather : Bool
deriving DecidableEq

/-- How a call ends for the one who waits for it. -/
inductive Reply (ε : Type) where
  | answered
  | failed (error : ε)
  /-- The time for it was over first. -/
  | timedOut
deriving DecidableEq

/-- Why a publication or a weather call fails. -/
inductive CallError where
  | publication (topic : String) (reason : String)
  | weatherRequest (reason : String)
  | weatherReply
deriving DecidableEq

def CallError.message : CallError → String
  | .publication topic reason => "publish to " ++ topic ++ " failed: " ++ reason
  | .weatherRequest reason => "weather request failed: " ++ reason
  | .weatherReply => "invalid weather payload: no object of texts"

/-- An append under way. -/
structure Filing where
  event : Event
  /-- What the log says, once it has the event. -/
  verdict : Option (Except LogError Unit)

namespace Filing

def start (e : Event) : Filing := ⟨e, none⟩

/-- The log takes the event, unless it has done so before. -/
def file (f : Filing) (log : EventLog) : Filing × EventLog :=
  match f.verdict with
  | some _ => (f, log)
  | none =>
    match log.append f.event with
    | .ok log' => (⟨f.event, some (.ok ())⟩, log')
    | .error e => (⟨f.event, some (.error e)⟩, log)

/-- What a reply means for the one who waits for the append: an answer is what the log has said, and
means nothing as long as it has said nothing. -/
def outcome? (f : Filing) (r : Reply LogError) : Option (Reply LogError) :=
  match r, f.verdict with
  | .answered, none => none
  | .answered, some (.ok ()) => some .answered
  | .answered, some (.error e) => some (.failed e)
  | .failed e, _ => some (.failed e)
  | .timedOut, _ => some .timedOut

end Filing

/-- A catch-up under way. -/
structure CatchUpRun where
  plan : CatchUpPlan
  applied : Count
  startedAt : Nat
deriving DecidableEq

def CatchUpRun.pending (run : CatchUpRun) : Count := Count.sub run.plan.units run.applied

/-- What a tick is made for. -/
inductive TickCause where
  /-- It makes up for one that was missed. -/
  | owed (run : CatchUpRun)
  /-- It was due; the next one is due at the given uptime. -/
  | due (next : Nat)
deriving DecidableEq

def TickCause.isCatchUp : TickCause → Bool
  | .owed _ => true
  | .due _ => false

/-- Where a ticker stands. -/
inductive Phase where
  | starting (plan : Option CatchUpPlan)
  /-- It is between two ticks of a catch-up. -/
  | replaying (run : CatchUpRun)
  /-- It lets others go first. -/
  | yielding (run : CatchUpRun)
  /-- It waits until its snapshot is published. -/
  | publishing (cause : TickCause) (world : World)
  /-- It waits until the event of its tick is appended. -/
  | recording (cause : TickCause) (gameTime : Duration) (filing : Filing)
  /-- It waits for the weather at an instant in a season. -/
  | askingWeather (cause : TickCause) (synthetic : Utc) (season : Season)
  /-- Its catch-up is over or has been stopped. -/
  | replayed (run : CatchUpRun)
  /-- It waits until the event of its resumption is appended. -/
  | resuming (run : CatchUpRun) (filing : Filing)
  /-- It waits until a tick is due. -/
  | waiting (due : Nat)
  /-- It has stopped and owes some ticks of a catch-up. -/
  | finished (pending : Count)
  | crashed (culprit : String)

/-- The driver of one world's clock. -/
structure Ticker where
  world : WorldId
  dilation : Binary64
  delta : Duration
  /-- The version of the last event. -/
  version : Count
  /-- The game time of the last weather call. -/
  weatherSyncedAt : Duration
  stop : StopSignal
  phase : Phase

namespace Ticker

/-- The ticker whose next event has the version after the given one; none if the dilation is not
usable. -/
def new? (clock : ClockSettings) (world : WorldId) (dilation : Binary64) (version : Count)
    (weatherSyncedAt : Duration) (plan : Option CatchUpPlan) : Option Ticker :=
  (ClockSettings.tickDelta? clock.tickInterval dilation).map fun delta =>
    { world := world
      dilation := dilation
      delta := delta
      version := version
      weatherSyncedAt := weatherSyncedAt
      stop := StopSignal.lowered
      phase := .starting plan }

def requestStop (t : Ticker) : Ticker := { t with stop := t.stop.raise }

def isOver (t : Ticker) : Bool :=
  match t.phase with
  | .finished _ | .crashed _ => true
  | _ => false

end Ticker

end WorldClock
