import WorldClock.Manager.Error
import WorldClock.Ticker.Step

/-!
# The manager

A `Manager` is a running program as far as its worlds are concerned: it holds their tickers.
Spawning and stopping a ticker are errands: they take several steps, wait for the log in between,
and exclude each other, so that at most one errand is under way. A ticker counts as active until it
is asked to stop.
-/

namespace WorldClock

/-- What a spawn asks for. -/
structure SpawnOrder where
  world : WorldId
  name : String
  dilation : Binary64
deriving DecidableEq

/-- How far a spawn has come. -/
inductive SpawnStage where
  /-- It waits for the history of a world that is not in the registry. -/
  | readingHistory
  /-- It waits until the creation of a new world is appended. -/
  | creating (filing : Filing)
  /-- It waits for the latest version of a known world. -/
  | readingVersion (known : World)
  /-- It waits until the creation event of a known world is appended. -/
  | announcing (known : World) (filing : Filing)

/-- How far a stop has come. -/
inductive StopStage where
  /-- It waits until the ticker is over. -/
  | joining
  /-- It waits for the latest version, which the ticker could not tell. -/
  | readingVersion
  /-- It waits until the pause is appended. -/
  | recording (filing : Filing) (world : World) (pending : Count)

/-- A spawn or a stop. -/
inductive Errand where
  | spawn (order : SpawnOrder) (stage : SpawnStage)
  | stop (world : WorldId) (stage : StopStage)
  | over (result : Except ManagerError Unit)

/-- A running program: its tickers, what they share, and the errand under way. -/
structure Manager where
  wiring : Wiring
  surroundings : Surroundings
  tickers : WorldTable Ticker
  errand : Option Errand

namespace Manager

def wiring? (clock : ClockSettings) (publishes asksWeather : Bool) : Except ManagerError Wiring :=
  match clock.fault?, clock.calendar with
  | some fault, _ => .error (.settings (.invalid fault))
  | none, .error e => .error (.calendar e)
  | none, .ok calendar => .ok ⟨clock, calendar, publishes, asksWeather⟩

def start (wiring : Wiring) (log : EventLog) (projections : Option (Dispatcher ReadModel)) :
    Manager where
  wiring := wiring
  surroundings := Surroundings.start log projections
  tickers := WorldTable.empty
  errand := none

def isActive (p : Manager) (world : WorldId) : Bool :=
  match p.tickers.get? world with
  | none => false
  | some t => !t.stop.isRaised

def activeWorlds (p : Manager) : List WorldId :=
  (p.tickers.entries.filter fun (_, t) => !t.stop.isRaised).map (·.1)

def isBusy (p : Manager) : Bool :=
  match p.errand with
  | some (.spawn _ _) | some (.stop _ _) => true
  | some (.over _) | none => false

/-- A look at a world's clock. -/
structure ClockStatus where
  running : Bool
  status : Status
  tickCount : Count
  gameTime : Duration
deriving DecidableEq

def status (p : Manager) (world : WorldId) : Except ManagerError ClockStatus :=
  match p.surroundings.registry.get? world with
  | none => .error (.notFound world)
  | some w => .ok ⟨p.isActive world, w.status, w.tickCount, w.gameTime⟩

def result? (p : Manager) : Option (Except ManagerError Unit) :=
  match p.errand with
  | some (.over result) => some result
  | _ => none

def tell (p : Manager) (world : WorldId) (n : WorldNotice) : Manager :=
  { p with surroundings := p.surroundings.tell world n }

def finish (p : Manager) (result : Except ManagerError Unit) : Manager :=
  { p with errand := some (.over result) }

def spawnAt (p : Manager) (order : SpawnOrder) (stage : SpawnStage) : Manager :=
  { p with errand := some (.spawn order stage) }

def stopAt (p : Manager) (world : WorldId) (stage : StopStage) : Manager :=
  { p with errand := some (.stop world stage) }

def withRegistry (p : Manager) (registry : Registry) : Manager :=
  { p with surroundings := { p.surroundings with registry := registry } }

def project (p : Manager) (world : WorldId) (e : Event) : Manager :=
  { p with surroundings := p.surroundings.project world e }

/-! ### Spawning -/

def launch (p : Manager) (order : SpawnOrder) (version : Count) (weatherSyncedAt : Duration)
    (plan : Option CatchUpPlan) : Manager :=
  match Ticker.new? p.wiring.clock order.world order.dilation version weatherSyncedAt plan with
  | none => p.finish (.error (.invalidDilation order.dilation))
  | some t =>
    let units := (plan.map (·.units)).getD 0
    ({ p with tickers := p.tickers.set order.world t }.tell order.world
      (.spawned order.name order.dilation units)).finish (.ok ())

def create (p : Manager) (m : Moment) (order : SpawnOrder) : Manager :=
  let e := Event.ofWorld order.world 1 m.wall (.created ⟨order.name, order.dilation, false⟩)
  p.spawnAt order (.creating (Filing.start e))

def enroll (p : Manager) (m : Moment) (order : SpawnOrder) : Manager :=
  let world := World.starting order.world order.name order.dilation m.wall
  match p.surroundings.registry.register world with
  | .error e => p.finish (.error (.registry e))
  | .ok registry =>
    ((p.withRegistry registry).tell order.world (.created order.name)).launch order 1
      Duration.zero none

/-- Resumes a known world, unless it is retired. -/
def resume (p : Manager) (order : SpawnOrder) (known : World) : Manager :=
  if known.status = .stopped then p.finish (.error (.retired order.world))
  else p.spawnAt order (.readingVersion known)

def planFor (p : Manager) (m : Moment) (known : World) : Option CatchUpPlan :=
  match known.status, known.pausedAt with
  | .paused, some pausedAt =>
    some (CatchUpPlan.between pausedAt m.wall p.wiring.clock.tickInterval)
  | _, _ => none

def resumed (order : SpawnOrder) (plan : Option CatchUpPlan) (world : World) : World :=
  { world with
    name := order.name
    dilation := order.dilation
    status := if plan.isSome then .catchingUp else .running
    pausedAt := none }

def takeUp (p : Manager) (m : Moment) (order : SpawnOrder) (known : World) (version : Count) :
    Manager :=
  let plan := p.planFor m known
  match p.surroundings.registry.update order.world (resumed order plan) with
  | .error e => p.finish (.error (.registry e))
  | .ok (world, registry) =>
    ((p.withRegistry registry).tell order.world (.resuming version known.pausedAt)).launch order
      version world.weatherSyncedAt plan

def announce (p : Manager) (m : Moment) (order : SpawnOrder) (known : World) (version : Count) :
    Manager :=
  if p.wiring.clock.announceResume then
    let e := Event.ofWorld order.world version.next m.wall
      (.created ⟨order.name, order.dilation, true⟩)
    p.spawnAt order (.announcing known (Filing.start e))
  else p.takeUp m order known version

/-- Goes on with the history of a world that is not in the registry. -/
def restoreFrom (p : Manager) (m : Moment) (order : SpawnOrder) (history : List Event) : Manager :=
  match restore history order.world with
  | .error e => p.finish (.error (.replay (.dispatch e)))
  | .ok none => p.create m order
  | .ok (some (world, events)) =>
    let p := p.tell order.world (.restored events world.tickCount)
    match p.surroundings.registry.register world with
    | .error e => p.finish (.error (.registry e))
    | .ok registry => (p.withRegistry registry).resume order world

def beginSpawn (p : Manager) (order : SpawnOrder) : Manager :=
  if p.isActive order.world then p.finish (.error (.alreadyRunning order.world))
  else if (ClockSettings.tickDelta? p.wiring.clock.tickInterval order.dilation).isNone then
    p.finish (.error (.invalidDilation order.dilation))
  else match p.surroundings.registry.get? order.world with
    | some known => p.resume order known
    | none => p.spawnAt order .readingHistory

/-! ### Stopping -/

def beginStop (p : Manager) (world : WorldId) : Manager :=
  if p.isActive world then
    { p with tickers := p.tickers.modify world Ticker.requestStop }.stopAt world .joining
  else p.finish (.error (.notRunning world))

/-- Pauses a world whose ticker is over. What it still owes of a catch-up moves the mark of the
pause back. -/
def pause (p : Manager) (m : Moment) (world : WorldId) (version pending : Count) : Manager :=
  let pausedAt := m.wall.backDated p.wiring.clock.tickInterval pending
  match p.surroundings.registry.update world (World.paused pausedAt) with
  | .error e => p.finish (.error (.registry e))
  | .ok (w, registry) =>
    let e := Event.ofWorld world version.next m.wall <| .paused {
      tickCount := w.tickCount
      gameTimeNanos := w.gameTime.toNanoCount
      pausedAt := some pausedAt
      weatherSyncedNanos := w.weatherSyncedAt.toNanoCount }
    (p.withRegistry registry).stopAt world (.recording (Filing.start e) w pending)

def crashText (culprit : String) : String := "task panicked with message \"" ++ culprit ++ "\""

def join (p : Manager) (m : Moment) (world : WorldId) : Manager :=
  match p.tickers.get? world with
  | none => p
  | some t =>
    let rest := { p with tickers := p.tickers.erase world }
    match t.phase with
    | .finished pending => rest.pause m world t.version pending
    | .crashed culprit =>
      (rest.tell world (.tickerCrashed (crashText culprit))).stopAt world .readingVersion
    | _ => p

/-- Counts a stop among those of many worlds. A failure is told, unless someone else has stopped the
world meanwhile. -/
def noteStop (p : Manager) (world : WorldId) (stopped : Nat) :
    Except ManagerError Unit → Nat × Manager
  | .ok () => (stopped + 1, p)
  | .error (.notRunning _) => (stopped, p)
  | .error e => (stopped, p.tell world (.stopFailed e.message))

/-! ### Waiting for the log -/

/-- Goes on with an errand that reads the log; `failure` is why the log cannot be read. -/
def read (p : Manager) (m : Moment) (failure : Option LogError) : Manager :=
  let log := p.surroundings.log
  match p.errand with
  | some (.spawn order .readingHistory) =>
    match failure with
    | some e => p.finish (.error (.replay (.log e)))
    | none => p.restoreFrom m order (log.byAggregate order.world.text 1)
  | some (.spawn order (.readingVersion known)) =>
    match failure with
    | some e => p.finish (.error (.log e))
    | none => p.announce m order known ((log.latestVersion? order.world.text).getD 0)
  | some (.stop world .readingVersion) =>
    match failure with
    | some e => p.finish (.error (.log e))
    | none => p.pause m world ((log.latestVersion? world.text).getD 0) 0
  | _ => p

def filing? (p : Manager) : Option Filing :=
  match p.errand with
  | some (.spawn _ (.creating filing)) | some (.spawn _ (.announcing _ filing))
  | some (.stop _ (.recording filing _ _)) => some filing
  | _ => none

/-- The process after the log has taken the event that the errand waits for. -/
def file (p : Manager) : Manager :=
  match p.errand with
  | some (.spawn order (.creating filing)) =>
    let (filing, s) := p.surroundings.file filing
    { p with surroundings := s }.spawnAt order (.creating filing)
  | some (.spawn order (.announcing known filing)) =>
    let (filing, s) := p.surroundings.file filing
    { p with surroundings := s }.spawnAt order (.announcing known filing)
  | some (.stop world (.recording filing w pending)) =>
    let (filing, s) := p.surroundings.file filing
    { p with surroundings := s }.stopAt world (.recording filing w pending)
  | _ => p

/-- Goes on with an errand when the append it waits for ends. An errand has no time limit. -/
def conclude (p : Manager) (m : Moment) (r : Reply LogError) : Manager :=
  match p.filing?.bind (·.outcome? r) with
  | none | some .timedOut => p
  | some (.failed e) => p.finish (.error (.log e))
  | some .answered =>
    match p.errand with
    | some (.spawn order (.creating filing)) =>
      (p.project order.world filing.event).enroll m order
    | some (.spawn order (.announcing known filing)) =>
      (p.project order.world filing.event).takeUp m order known filing.event.version
    | some (.stop world (.recording filing w pending)) =>
      ((p.project world filing.event).tell world
        (.tickerStopped w.tickCount w.gameTime.toMillis pending)).finish (.ok ())
    | _ => p

end Manager

end WorldClock
