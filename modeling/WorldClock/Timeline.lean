import WorldClock.Projection
import WorldClock.World.Basic
import WorldClock.World.Table

/-!
# Timelines

A `Timeline` is the history of one world folded together: its latest name, its greatest totals,
whether it was last paused. `Timeline.toWorld` makes of it the world as it is taken up again after
its driver is gone: paused since its latest pause, or since its last event if it ticked after that.
-/

namespace WorldClock

/-- The folded history of a world. -/
structure Timeline where
  world : WorldId
  name : String
  dilation : Binary64
  tickCount : Count
  gameTime : Duration
  createdAt : Instant
  lastEventAt : Instant
  lastVersion : Count
  paused : Bool
  /-- The instant of the latest pause, unless a tick or a completed catch-up followed. -/
  pausedAt : Option Instant
  weatherSyncedAt : Duration
  resumes : Count
deriving DecidableEq

namespace Timeline

def starting (world : WorldId) (e : Event) (d : CreatedDetails) : Timeline where
  world := world
  name := d.name
  dilation := d.dilation
  tickCount := 0
  gameTime := Duration.zero
  createdAt := e.timestamp
  lastEventAt := e.timestamp
  lastVersion := e.version
  paused := false
  pausedAt := none
  weatherSyncedAt := Duration.zero
  resumes := 0

def raise (t : Timeline) (tickCount : Count) (gameTime : Duration) : Timeline :=
  { t with
    tickCount := if t.tickCount ≤ tickCount then tickCount else t.tickCount
    gameTime := t.gameTime.max gameTime }

def touch (t : Timeline) (e : Event) : Timeline :=
  { t with lastEventAt := e.timestamp, lastVersion := e.version }

def resumed (t : Timeline) (e : Event) : Timeline :=
  { t with resumes := t.resumes.next, paused := false, pausedAt := none }.touch e

def after (t : Timeline) (e : Event) : Details → Timeline
  | .created d => { t with name := d.name, dilation := d.dilation }.touch e
  | .ticked d =>
    { t.raise d.tickCount d.gameTime with paused := false, pausedAt := none }.touch e
  | .paused d =>
    { t.raise d.tickCount d.gameTime with
      weatherSyncedAt := t.weatherSyncedAt.max d.weatherSyncedAt
      paused := true
      pausedAt := some (d.pausedAt.getD e.timestamp) }.touch e
  | .resumed _ => t.resumed e

def toWorld (t : Timeline) : World where
  id := t.world
  name := t.name
  status := .paused
  tickCount := t.tickCount
  gameTime := t.gameTime
  dilation := t.dilation
  createdAt := t.createdAt
  lastTickAt := t.lastEventAt
  pausedAt := some (t.pausedAt.getD t.lastEventAt)
  weatherSyncedAt := t.weatherSyncedAt

end Timeline

/-- The timelines of all worlds seen so far. -/
abbrev Timelines := WorldTable Timeline

namespace Timelines

def read (e : Event) (k : EventKind) : Except Refusal Details :=
  match e.details? k with
  | some d => .ok d
  | none => .error (.badPayload e.tag e.version)

/-- The timelines after an event of a known kind and world. What a completed catch-up tells is not
looked at. -/
def handleWorld (ts : Timelines) (e : Event) (k : EventKind) (world : WorldId) :
    Except Refusal Timelines :=
  match ts.get? world with
  | none => do
    if k ≠ .created then throw (.beforeCreation e.tag world)
    match ← read e k with
    | .created d => return ts.set world (Timeline.starting world e d)
    | _ => return ts
  | some t =>
    if k = .resumed then .ok (ts.set world (t.resumed e))
    else (read e k).map fun d => ts.set world (t.after e d)

/-- The timelines after an event. Events of other things than worlds are passed over. -/
def handle (ts : Timelines) (e : Event) : Except Refusal Timelines :=
  match e.kind? with
  | none => .ok ts
  | some k =>
    match WorldId.ofText? e.aggregateId with
    | none => .error (.badWorldId e.aggregateId)
    | some world => handleWorld ts e k world

def projectionName : String := "world_timeline"

end Timelines

/-- The worlds as a history leaves them: the world itself, if the history has any event, and the
number of its events. -/
def restore (history : List Event) (world : WorldId) :
    Except DispatchError (Option (World × Nat)) :=
  let projection : Projection Timelines :=
    ⟨Timelines.projectionName, WorldTable.empty, Timelines.handle⟩
  let (d, result) := (Dispatcher.empty.register projection).projectAll history
  match result with
  | .error e => .error e
  | .ok 0 => .ok none
  | .ok count =>
    let timeline := (d.projections.head?).bind fun p => p.state.get? world
    .ok (timeline.map fun t => (t.toWorld, count))

end WorldClock
