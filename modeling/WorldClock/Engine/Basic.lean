import WorldClock.Database
import WorldClock.Settings.File
import WorldClock.Settings.LogFilter
import WorldClock.Simulation.Manage

/-!
# The engine

An engine runs the worlds of its settings until it is told to shut down. An `Engine` is what it has
done so far: it tells notices, tries to connect to the message server, and starts a process. The
process keeps its events in memory, since no database can be reached.
-/

namespace WorldClock

/-- Why an engine ends by itself. -/
inductive EngineError where
  | settings (error : SettingsError)
  | manager (error : ManagerError)
  | database (error : DatabaseError)
  | replay (error : ReplayError)
  | connection (url reason : String)
  | signal (reason : String)
deriving DecidableEq

def EngineError.message : EngineError → String
  | .settings e => "config error: " ++ e.message
  | .manager e => "ticker error: " ++ e.message
  | .database e => "database error: " ++ e.message
  | .replay e => "replay error: " ++ e.message
  | .connection url reason => "NATS error: failed to connect to NATS at " ++ url ++ ": " ++ reason
  | .signal reason => "signal error: " ++ reason

/-- What an engine finds around it. -/
structure EngineHost where
  environment : String → Option String
  settingsFile : SettingsFile
  /-- Why the message server refuses a connection, if it does. -/
  connectFailure : Option String
  /-- Why messages cannot be flushed at the end, if so. -/
  flushFailure : Option String
  publish : Script
  request : Script
  startedAt : Instant

/-- Which log lines an engine writes, and how. -/
structure Logging where
  filter : String
  /-- Whether the filter is that of the environment. -/
  fromEnvironment : Bool
  format : LogFormat
deriving DecidableEq

/-- The filter of the environment if there is a valid one, or else the level of the settings. -/
def Logging.choose (environment : String → Option String) (s : LogSettings) : Logging :=
  match (environment "RUST_LOG").filter LogFilter.isValid with
  | some filter => ⟨filter, true, s.format⟩
  | none => ⟨s.level, false, s.format⟩

/-- What an engine has done so far. -/
structure Engine where
  logging : Option Logging
  /-- The addresses to which it tried to connect. -/
  attempts : List String
  /-- The subject of its weather requests, if it makes any. -/
  weatherSubject : Option String
  flushes : Nat
  /-- What it told before its process started, the latest first. -/
  early : List Notice
  process : Option Simulation

namespace Engine

def idle : Engine := ⟨none, [], none, 0, [], none⟩

def notices (e : Engine) : List Notice :=
  match e.process with
  | some s => s.manager.surroundings.notices
  | none => e.early

def tell (n : Notice) (e : Engine) : Engine :=
  match e.process with
  | some s => { e with process := some (s.tell n) }
  | none => { e with early := n :: e.early }

/-- Takes what was told, the earliest first. -/
def takeNotices (e : Engine) : List Notice × Engine :=
  let clear (s : Simulation) : Simulation :=
    { s with manager := { s.manager with surroundings :=
      { s.manager.surroundings with notices := [] } } }
  (e.notices.reverse, { e with early := [], process := e.process.map clear })

def elapsed (e : Engine) : Nat := (e.process.map (·.elapsed)).getD 0

def sleep (millis : Nat) (e : Engine) : Engine :=
  { e with process := e.process.map fun s => s.sleep millis }

def calls (e : Engine) : List Call := (e.process.map (·.manager.surroundings.calls)).getD []

end Engine

def WorldSettings.order (w : WorldSettings) : SpawnOrder := ⟨w.id, w.name, w.dilation⟩

namespace Simulation

/-- Spawns tickers in order, up to the first failure. -/
def spawnEach (s : Simulation) : List WorldSettings → Except ManagerError Unit × Simulation
  | [] => (.ok (), s)
  | w :: rest =>
    match s.spawn w.order with
    | (.ok (), s) => s.spawnEach rest
    | (.error e, s) => (.error e, s)

def tellPaused (s : Simulation) (worlds : List WorldSettings) : Simulation :=
  worlds.foldl (fun s w =>
    match s.manager.surroundings.projections.bind fun d => ReadModel.timeline? d w.id with
    | none => s
    | some t =>
      s.tell (.world w.id (.leftPaused t.name t.tickCount t.gameTime.toMillis t.lastVersion))) s

end Simulation

end WorldClock
