import WorldClock.Engine.Basic

/-!
# Running an engine

An engine starts in steps: it reads its settings, opens its log, connects to the message server,
reads the histories of its worlds, and spawns their tickers. The first step that fails ends it, and
what it has done until then stays visible. Then it waits for a signal. On the signal it stops all
tickers, so that every world is left paused, and flushes its messages.
-/

namespace WorldClock

/-- A step of an engine. -/
abbrev EngineStep := EStateM EngineError Engine

namespace EngineStep

def tell (n : Notice) : EngineStep Unit := modify (Engine.tell n)

def configure (host : EngineHost) : EngineStep Settings := do
  match Settings.forStart host.environment host.settingsFile with
  | .error e => throw (.settings e)
  | .ok s =>
    modify fun e => { e with logging := some (Logging.choose host.environment s.log) }
    tell (.starting s.clock.tickIntervalMillis s.clock.dayHours s.clock.seasonDays s.worlds.length)
    return s

/-- Opens the log. It is kept in memory; a database cannot be reached. -/
def openLog (services : ServiceSettings) : EngineStep EventLog := do
  match services.databaseUrl with
  | some url => throw (.database (DatabaseSettings.forUrl url).connectError)
  | none =>
    tell .memoryOnly
    return EventLog.empty

def connect (host : EngineHost) (services : ServiceSettings) : EngineStep Bool := do
  match services.natsUrl with
  | none =>
    tell .unconnected
    return false
  | some url =>
    tell (.connecting url)
    modify fun e => { e with attempts := e.attempts ++ [url] }
    match host.connectFailure with
    | some reason => throw (.connection url reason)
    | none =>
      tell .connected
      return true

def replayHistories (log : EventLog) :
    List WorldSettings → Dispatcher ReadModel → EngineStep (Dispatcher ReadModel)
  | [], d => return d
  | w :: rest, d => do
    match d.rebuild log w.id.text with
    | (_, .error e) => throw (.replay (.dispatch e))
    | (d, .ok events) =>
      if 0 < events then tell (.world w.id (.historyReplayed events))
      replayHistories log rest d

def scripts (host : EngineHost) (weatherSubject : String) : Scripts where
  publish := host.publish
  weather := host.request
  append := ⟨[]⟩
  read := ⟨[]⟩
  publishReason := "not connected"
  weatherReason := "request on " ++ weatherSubject ++ " failed: no responders"
  logReason := ""

/-- Starts the process, without tickers. The weather is asked for only over the message server. -/
def startProcess (host : EngineHost) (s : Settings) (log : EventLog) (connected : Bool)
    (d : Dispatcher ReadModel) : EngineStep Unit := do
  let subject := if connected then s.services.weatherSubject else none
  if let some subject := subject then
    tell (.weatherEnabled subject)
    modify fun e => { e with weatherSubject := some subject }
  match Manager.wiring? s.clock connected subject.isSome with
  | .error e => throw (.manager e)
  | .ok wiring =>
    let manager := Manager.start wiring log (some d)
    let notices := (← get).early
    let manager := { manager with surroundings := { manager.surroundings with notices := notices } }
    let simulation := Simulation.start manager host.startedAt (scripts host (subject.getD ""))
    modify fun e => { e with process := some simulation }

def spawnAll (worlds : List WorldSettings) : EngineStep Unit := do
  if let some s := (← get).process then
    let (result, s) := s.spawnEach worlds
    modify fun e => { e with process := some s }
    match result with
    | .error e => throw (.manager e)
    | .ok () => tell (.allRunning s.manager.activeWorlds.length)

/-- Starts an engine, up to the point where it waits for a signal. -/
def start (host : EngineHost) : EngineStep Settings := do
  let s ← configure host
  let log ← openLog s.services
  let connected ← connect host s.services
  let d ← replayHistories log s.worlds (Dispatcher.empty.register ReadModel.timelineProjection)
  startProcess host s log connected d
  spawnAll s.worlds
  return s

def flush (host : EngineHost) : EngineStep Unit := do
  modify fun e => { e with flushes := e.flushes + 1 }
  if let some reason := host.flushFailure then tell (.flushFailed reason)

def shutDown (host : EngineHost) (s : Settings) : EngineStep Unit := do
  tell .shutdownRequested
  if let some process := (← get).process then
    let (stopped, process) := process.stopAll
    modify fun e => { e with process := some (process.tellPaused s.worlds) }
    if !(← get).attempts.isEmpty then flush host
    tell (.shutdownComplete stopped)

/-- A whole run of an engine, with a signal some milliseconds after it starts to wait for one. -/
def run (host : EngineHost) (signalAfter : Option Nat) : EngineStep Unit := do
  let s ← start host
  match signalAfter with
  | none => throw (.signal "no signals here")
  | some millis =>
    modify (Engine.sleep millis)
    shutDown host s

end EngineStep

/-- What an engine has done after a run, and how the run ended. -/
def EngineHost.run (host : EngineHost) (signalAfter : Option Nat) :
    Except EngineError Unit × Engine :=
  match EngineStep.run host signalAfter Engine.idle with
  | .ok () e => (.ok (), e)
  | .error error e => (.error error, e)

end WorldClock
