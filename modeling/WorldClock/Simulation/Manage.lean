import WorldClock.Manager.Shutdown
import WorldClock.Simulation.Basic

/-!
# Errands under simulated time

Spawning and stopping tickers, and what else someone does to a simulated process from outside. An
errand waits for the log as its script says, and for the ticker it stops; meanwhile other tickers
go on.
-/

namespace WorldClock

namespace Simulation

def actOnErrand (s : Simulation) (act : Act) : Simulation :=
  match act with
  | .succeed | .stop | .reply _ => (s.move .file).move (.conclude .answered)
  | .fail => s.move (.conclude (.failed (.backend s.scripts.logReason)))
  | .delay millis => ((s.wait millis).move .file).move (.conclude .answered)
  | .late millis => ((s.move .file).wait millis).move (.conclude .answered)
  | .hang | .panic => s

def nextRead (s : Simulation) : Option LogError × Simulation :=
  let (act, script) := s.scripts.read.next
  let s := { s with scripts := { s.scripts with read := script } }
  match act with
  | .fail => (some (.backend s.scripts.logReason), s)
  | _ => (none, s)

def errandSteps : Nat := 8

def runErrand : Nat → Simulation → Simulation
  | 0, s => s
  | fuel + 1, s =>
    match s.manager.errand with
    | none | some (.over _) => s
    | some (.spawn _ .readingHistory) | some (.spawn _ (.readingVersion _))
    | some (.stop _ .readingVersion) =>
      let (failure, s) := s.nextRead
      runErrand fuel (s.move (.read failure))
    | some (.stop world .joining) => runErrand fuel ((waitFor world patience s).move .join)
    | some (.spawn _ (.creating _)) | some (.spawn _ (.announcing _ _))
    | some (.stop _ (.recording _ _ _)) =>
      let (act, script) := s.scripts.append.next
      let s := { s with scripts := { s.scripts with append := script } }
      runErrand fuel (s.actOnErrand act)

/-- What has come of the last errand; one that never ends counts as refused by the log. -/
def result (s : Simulation) : Except ManagerError Unit :=
  s.manager.result?.getD (.error (.log (.backend s.scripts.logReason)))

def spawn (s : Simulation) (order : SpawnOrder) : Except ManagerError Unit × Simulation :=
  let s := runErrand errandSteps (s.move (.spawn order))
  let s := match s.result with
    | .ok () => { s with ready := s.ready ++ [order.world] }
    | .error _ => s
  (s.result, s)

/-- Lets everything happen that the stop of a world waits for. A ticker that waits for its next tick
is woken. -/
def awaitStop (s : Simulation) (world : WorldId) : Simulation :=
  let s := match s.manager.errand, (s.manager.tickers.get? world).map (·.phase) with
    | some (.stop _ .joining), some (.waiting _) =>
      { s with
        alarms := s.alarms.erase world
        ready := if s.ready.contains world then s.ready else s.ready ++ [world] }
    | _, _ => s
  runErrand errandSteps s

def stop (s : Simulation) (world : WorldId) : Except ManagerError Unit × Simulation :=
  let s := (s.move (.stop world)).awaitStop world
  (s.result, s)

def activeWorlds (s : Simulation) : List WorldId :=
  s.manager.activeWorlds.mergeSort fun a b => !b.identifier.before a.identifier

def tell (s : Simulation) (n : Notice) : Simulation :=
  { s with manager := { s.manager with surroundings :=
    { s.manager.surroundings with notices := n :: s.manager.surroundings.notices } } }

/-- Goes on with a shutdown, of which at most so many worlds are left. -/
def shutDown : Nat → Simulation → Shutdown → Nat × Simulation
  | 0, s, shutdown => (shutdown.stopped, s)
  | left + 1, s, shutdown =>
    let called := shutdown.turn (.caller s.now)
    match called.current with
    | none => (called.stopped, s)
    | some world =>
      let s := { s with manager := called.process }.awaitStop world
      let noted := { called with process := s.manager }.turn (.caller s.now)
      shutDown left { s with manager := noted.process } noted

def stopAll (s : Simulation) : Nat × Simulation :=
  let worlds := s.activeWorlds
  let s := s.tell (.stoppingAll worlds.length)
  shutDown worlds.length s (Shutdown.start s.manager worlds)

def jump (s : Simulation) (millis : Int) : Simulation := { s with jumped := s.jumped + millis }

def restart (s : Simulation) (projections : Option (Dispatcher ReadModel)) : Simulation :=
  let old := s.manager.surroundings
  let manager := s.manager.restart projections
  { s with
    manager := { manager with surroundings :=
      { manager.surroundings with notices := old.notices, calls := old.calls } }
    ready := []
    alarms := WorldTable.empty }

/-- Restores a world from the log, without taking it into use. -/
def restoreWorld (s : Simulation) (world : WorldId) :
    Except ReplayError (Option World) × Simulation :=
  match s.nextRead with
  | (some e, s) => (.error (.log e), s)
  | (none, s) =>
    match restore (s.manager.surroundings.log.byAggregate world.text 1) world with
    | .error e => (.error (.dispatch e), s)
    | .ok none => (.ok none, s)
    | .ok (some (w, events)) =>
      (.ok (some w), s.tell (.world world (.restored events w.tickCount)))

def place (s : Simulation) (t : Ticker) : Simulation :=
  { s with
    manager := { s.manager with tickers := s.manager.tickers.set t.world t }
    ready := s.ready ++ [t.world] }

end Simulation

end WorldClock
