import WorldClock.Ticker.Surroundings

/-!
# Steps of a ticker

A ticker takes a step when it is given a turn (`Ticker.poll`), when a publication or a weather call
ends (`Ticker.answer`), and when an append ends (`Ticker.conclude`). No failure of these three stops
its clock; each is told and passed over. Only the stop signal ends a ticker, and it is looked at
between ticks.
-/

namespace WorldClock

namespace Ticker

/-- Where a ticker goes after a tick. Between the ticks of a catch-up it lets others go first from
time to time. -/
def restAfter (w : Wiring) : TickCause → Phase
  | .due next => .waiting next
  | .owed run =>
    let run := { run with applied := run.applied.next }
    if run.applied.toNat % max 1 w.clock.yieldEvery.toNat = 0 then .yielding run
    else .replaying run

def endTick (w : Wiring) (cause : TickCause) (t : Ticker) : Ticker :=
  { t with phase := restAfter w cause }

/-- Asks for the weather when enough simulated time has passed since it was last asked for. The mark
is moved whatever comes of it. -/
def askWeather (w : Wiring) (cause : TickCause) (gameTime : Duration) (t : Ticker)
    (s : Surroundings) : Ticker × Surroundings :=
  if gameTime.sub t.weatherSyncedAt < w.clock.weatherInterval ∨ w.asksWeather = false then
    (t.endTick w cause, s)
  else
    let mark (world : World) : World := { world with weatherSyncedAt := gameTime }
    let s := match s.registry.update t.world mark with
      | .ok (_, registry) => { s with registry := registry }
      | .error e => s.tell t.world (.weatherMarkFailed e.message)
    let season := w.calendar.season gameTime
    let synthetic := Utc.synthetic w.clock.epoch gameTime
    ({ t with weatherSyncedAt := gameTime, phase := .askingWeather cause synthetic season },
      s.call (.weather t.world synthetic season))

def nextEvent (m : Moment) (details : Details) (t : Ticker) : Event :=
  Event.ofWorld t.world t.version.next m.wall details

def record (m : Moment) (cause : TickCause) (world : World) (t : Ticker) : Ticker :=
  let e := t.nextEvent m <| .ticked {
    tickCount := world.tickCount
    gameTimeNanos := world.gameTime.toNanoCount
    tickNanos := t.delta.toNanoCount
    catchUp := cause.isCatchUp }
  { t with version := e.version, phase := .recording cause world.gameTime (Filing.start e) }

/-- Makes a tick: the registry first, then the snapshot. -/
def tick (w : Wiring) (m : Moment) (cause : TickCause) (t : Ticker) (s : Surroundings) :
    Ticker × Surroundings :=
  match s.registry.update t.world (World.ticked t.delta m.wall) with
  | .error e => (t.endTick w cause, s.tell t.world (.advanceFailed e.message))
  | .ok (world, registry) =>
    let s := { s with registry := registry }
    if w.publishes then
      ({ t with phase := .publishing cause world },
        s.call (.published (w.calendar.snapshot world)))
    else (t.record m cause world, s)

/-- The uptime at which a steady clock that starts now makes its first tick. -/
def firstDue (w : Wiring) (m : Moment) : Nat := m.uptime + w.clock.tickInterval.nanos

def markRunning (world : World) : World :=
  if world.status = .catchingUp then { world with status := .running } else world

/-- Ends a catch-up: a stopped one ends the ticker, a complete one is recorded. -/
def endCatchUp (m : Moment) (run : CatchUpRun) (t : Ticker) (s : Surroundings) :
    Ticker × Surroundings :=
  if run.pending ≠ 0 then
    ({ t with phase := .finished run.pending },
      s.tell t.world (.catchUpStopped run.applied run.pending))
  else
    let s := match s.registry.update t.world markRunning with
      | .ok (_, registry) => { s with registry := registry }
      | .error e => s.tell t.world (.runMarkFailed e.message)
    let e := t.nextEvent m (.resumed ⟨run.plan.units, run.plan.missed.toMillis⟩)
    ({ t with version := e.version, phase := .resuming run (Filing.start e) }, s)

/-- Takes a turn. A ticker that waits for a reply, or for a tick that is not due, stays as it is. -/
def poll (w : Wiring) (m : Moment) (t : Ticker) (s : Surroundings) : Ticker × Surroundings :=
  match t.phase with
  | .starting none => ({ t with phase := .waiting (firstDue w m) }, s)
  | .starting (some plan) =>
    ({ t with phase := .replaying ⟨plan, 0, m.uptime⟩ },
      s.tell t.world (.catchingUp plan.units plan.missed.toMillis))
  | .replaying run =>
    if run.applied < run.plan.units ∧ t.stop.isRaised = false then t.tick w m (.owed run) s
    else ({ t with phase := .replayed run }, s)
  | .yielding run => ({ t with phase := .replaying run }, s)
  | .replayed run => t.endCatchUp m run s
  | .waiting due =>
    if t.stop.isRaised then ({ t with phase := .finished 0 }, s)
    else if due ≤ m.uptime then t.tick w m (.due (due + w.clock.tickInterval.nanos)) s
    else (t, s)
  | _ => (t, s)

/-- Goes on when a publication or a weather call ends. -/
def answer (w : Wiring) (m : Moment) (r : Reply CallError) (t : Ticker) (s : Surroundings) :
    Ticker × Surroundings :=
  match t.phase with
  | .publishing cause world =>
    let s := match r with
      | .answered => s
      | .failed e => s.tell t.world (.publishFailed world.tickCount e.message)
      | .timedOut => s.tell t.world (.publishTimedOut world.tickCount w.clock.timeout.toMillis)
    (t.record m cause world, s)
  | .askingWeather cause _ _ =>
    let s := match r with
      | .answered => s
      | .failed e => s.tell t.world (.weatherFailed e.message)
      | .timedOut => s.tell t.world (.weatherTimedOut w.clock.timeout.toMillis)
    (t.endTick w cause, s)
  | _ => (t, s)

/-- What comes of an append: a stored event is handed to the projections, a failure is told. -/
def settle (w : Wiring) (kind : EventKind) (e : Event) (r : Reply LogError) (t : Ticker)
    (s : Surroundings) : Surroundings :=
  match r with
  | .answered => s.project t.world e
  | .failed error => s.tell t.world (.appendFailed kind e.version error.message)
  | .timedOut => s.tell t.world (.appendTimedOut kind e.version w.clock.timeout.toMillis)

def conclude (w : Wiring) (m : Moment) (r : Reply LogError) (t : Ticker) (s : Surroundings) :
    Ticker × Surroundings :=
  match t.phase with
  | .recording cause gameTime filing =>
    match filing.outcome? r with
    | none => (t, s)
    | some r => t.askWeather w cause gameTime (t.settle w .ticked filing.event r s)
  | .resuming run filing =>
    match filing.outcome? r with
    | none => (t, s)
    | some r =>
      let elapsed := (m.uptime - run.startedAt) / nanosPerMilli
      ({ t with phase := .waiting (firstDue w m) },
        (t.settle w .resumed filing.event r s).tell t.world (.caughtUp run.applied elapsed))
  | _ => (t, s)

def filing? (t : Ticker) : Option Filing :=
  match t.phase with
  | .recording _ _ filing | .resuming _ filing => some filing
  | _ => none

def file (t : Ticker) (s : Surroundings) : Ticker × Surroundings :=
  match t.phase with
  | .recording cause gameTime filing =>
    let (filing, s) := s.file filing
    ({ t with phase := .recording cause gameTime filing }, s)
  | .resuming run filing =>
    let (filing, s) := s.file filing
    ({ t with phase := .resuming run filing }, s)
  | _ => (t, s)

def crash (culprit : String) (t : Ticker) : Ticker :=
  if t.isOver then t else { t with phase := .crashed culprit }

end Ticker

end WorldClock
