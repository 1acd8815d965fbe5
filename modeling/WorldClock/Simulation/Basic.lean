import WorldClock.Manager.Move
import WorldClock.Simulation.Script

/-!
# Simulated time

A `Simulation` is a process under a clock of its own, which moves in whole milliseconds and only
while the process waits. Tickers that can go on stand in a queue and run one after the other, each
until it waits. A ticker that waits has at most one alarm: the end of its call, the time limit of
the call, or its next tick. When nobody can go on, the clock moves to the next alarm.

Everything that happens to the process is a `Move`, so what holds of all runs holds of simulations.
-/

namespace WorldClock

/-- What an alarm brings about. -/
inductive AlarmEvent where
  | turn
  | answer (reply : Reply CallError)
  /-- The log takes its event, and its append ends. -/
  | fileAndConclude
  | conclude (reply : Reply LogError)
deriving DecidableEq

/-- An alarm of a ticker. -/
structure Alarm where
  /-- The millisecond at which it goes off. -/
  due : Nat
  /-- Of two alarms at one time, the one with the smaller number goes off first. -/
  number : Nat
  event : AlarmEvent
deriving DecidableEq

/-- A process under simulated time. -/
structure Simulation where
  manager : Manager
  startedAt : Instant
  elapsed : Nat
  /-- Milliseconds by which the wall clock was moved by hand, forward or back. -/
  jumped : Int
  scripts : Scripts
  /-- Whether a ticker rests at the end of its catch-up. -/
  catchUpOnly : Bool
  /-- The tickers that can go on. -/
  ready : List WorldId
  alarms : WorldTable Alarm
  alarmCount : Nat

namespace Simulation

def start (manager : Manager) (startedAt : Instant) (scripts : Scripts) : Simulation where
  manager := manager
  startedAt := startedAt
  elapsed := 0
  jumped := 0
  scripts := scripts
  catchUpOnly := false
  ready := []
  alarms := WorldTable.empty
  alarmCount := 0

def now (s : Simulation) : Moment where
  wall := Instant.clamp (s.startedAt.nanos + (s.elapsed + s.jumped) * (nanosPerMilli : Int))
  uptime := s.elapsed * nanosPerMilli

def move (s : Simulation) (m : Move) : Simulation :=
  { s with manager := s.manager.apply s.now m }

def setAlarm (s : Simulation) (world : WorldId) (due : Nat) (event : AlarmEvent) : Simulation :=
  { s with
    alarms := s.alarms.set world ⟨due, s.alarmCount, event⟩
    alarmCount := s.alarmCount + 1 }

def limit (s : Simulation) : Nat := s.manager.wiring.clock.timeoutMillis.toNat

/-- Sets the alarm for a call that ends after some milliseconds or at its time limit, whichever is
earlier; at the limit itself it is still in time. -/
def setCallAlarm (s : Simulation) (world : WorldId) (millis : Nat) (inTime overtime : AlarmEvent) :
    Simulation :=
  if millis ≤ s.limit then s.setAlarm world (s.elapsed + millis) inTime
  else s.setAlarm world (s.elapsed + s.limit) overtime

def requestStop (s : Simulation) (world : WorldId) : Simulation :=
  { s with manager :=
    { s.manager with tickers := s.manager.tickers.modify world Ticker.requestStop } }

def actOnCall (s : Simulation) (world : WorldId) (culprit : String) (failure : CallError)
    (act : Act) : Simulation :=
  let timedOut : AlarmEvent := .answer .timedOut
  match act with
  | .succeed => s.move (.answer world .answered)
  | .fail => s.move (.answer world (.failed failure))
  | .hang => s.setAlarm world (s.elapsed + s.limit) timedOut
  | .panic => s.move (.crash world culprit)
  | .delay 0 | .late 0 => s.move (.answer world .answered)
  | .delay millis | .late millis => s.setCallAlarm world millis (.answer .answered) timedOut
  | .stop => (s.requestStop world).move (.answer world .answered)
  | .reply bytes => s.move (.answer world (WeatherReply.reply bytes))

def actOnAppend (s : Simulation) (world : WorldId) (act : Act) : Simulation :=
  let timedOut : AlarmEvent := .conclude .timedOut
  let store (s : Simulation) := (s.move (.fileFor world)).move (.concludeFor world .answered)
  match act with
  | .succeed | .reply _ => store s
  | .fail => s.move (.concludeFor world (.failed (.backend s.scripts.logReason)))
  | .hang => s.setAlarm world (s.elapsed + s.limit) timedOut
  | .panic => s.move (.crash world "log")
  | .delay 0 | .late 0 => store s
  | .delay millis => s.setCallAlarm world millis .fileAndConclude timedOut
  | .late millis =>
    (s.move (.fileFor world)).setCallAlarm world millis (.conclude .answered) timedOut
  | .stop => store (s.requestStop world)

def isDone (s : Simulation) (world : WorldId) : Bool :=
  match s.manager.tickers.get? world with
  | none => true
  | some t => t.isOver || (s.catchUpOnly && match t.phase with
    | .replayed _ => true
    | _ => false)

/-- Lets the first ticker of the queue take one step. It stays first if it can go on, and goes to
the end of the queue if it lets others go first. -/
def turn (s : Simulation) (world : WorldId) (rest : List WorldId) : Simulation :=
  if s.isDone world then { s with ready := rest }
  else match s.manager.tickers.get? world with
    | none => { s with ready := rest }
    | some t =>
      match t.phase with
      | .starting _ | .replaying _ | .replayed _ => s.move (.poll world)
      | .yielding _ => { s.move (.poll world) with ready := rest ++ [world] }
      | .waiting due =>
        if t.stop.isRaised ∨ due ≤ s.now.uptime then s.move (.poll world)
        else
          { s.setAlarm world ((due + nanosPerMilli - 1) / nanosPerMilli) .turn with ready := rest }
      | .publishing _ _ =>
        let (act, script) := s.scripts.publish.next
        let s := { s with scripts := { s.scripts with publish := script } }
        let s := s.actOnCall world "publisher"
          (.publication world.topic s.scripts.publishReason) act
        if s.alarms.contains world then { s with ready := rest } else s
      | .askingWeather _ _ _ =>
        let (act, script) := s.scripts.weather.next
        let s := { s with scripts := { s.scripts with weather := script } }
        let s := s.actOnCall world "weather" (.weatherRequest s.scripts.weatherReason) act
        if s.alarms.contains world then { s with ready := rest } else s
      | .recording _ _ _ | .resuming _ _ =>
        let (act, script) := s.scripts.append.next
        let s := { s with scripts := { s.scripts with append := script } }
        let s := s.actOnAppend world act
        if s.alarms.contains world then { s with ready := rest } else s
      | .finished _ | .crashed _ => { s with ready := rest }

def earlier (a b : WorldId × Alarm) : WorldId × Alarm :=
  if b.2.due < a.2.due ∨ (b.2.due = a.2.due ∧ b.2.number < a.2.number) then b else a

def nextAlarm? (s : Simulation) : Option (WorldId × Alarm) :=
  match s.alarms.entries with
  | [] => none
  | a :: rest => some (rest.foldl earlier a)

def goOff (s : Simulation) (world : WorldId) (alarm : Alarm) : Simulation :=
  let s := { s with alarms := s.alarms.erase world, ready := s.ready ++ [world] }
  match alarm.event with
  | .turn => s
  | .answer reply => s.move (.answer world reply)
  | .fileAndConclude => (s.move (.fileFor world)).move (.concludeFor world .answered)
  | .conclude reply => s.move (.concludeFor world reply)

/-- How many steps a simulation takes at most before it is given up. -/
def patience : Nat := 100000000

def settle : Nat → Simulation → Simulation
  | 0, s => s
  | fuel + 1, s =>
    match s.ready with
    | world :: rest => settle fuel (s.turn world rest)
    | [] =>
      match s.nextAlarm? with
      | none => s
      | some (world, alarm) =>
        if alarm.due ≤ s.elapsed then settle fuel (s.goOff world alarm) else s

/-- Lets everything happen that happens before a given millisecond. -/
def passBefore (target : Nat) : Nat → Simulation → Simulation
  | 0, s => s
  | fuel + 1, s =>
    let s := settle patience s
    match s.nextAlarm? with
    | none => s
    | some (_, alarm) =>
      if alarm.due < target then passBefore target fuel { s with elapsed := alarm.due } else s

def wait (s : Simulation) (millis : Nat) : Simulation :=
  if millis = 0 then s
  else
    let target := s.elapsed + millis
    { passBefore target patience s with elapsed := target }

/-- Waits for some milliseconds and lets everything happen that is due by then. -/
def sleep (s : Simulation) (millis : Nat) : Simulation :=
  settle patience (s.wait millis)

def waitFor (world : WorldId) : Nat → Simulation → Simulation
  | 0, s => s
  | fuel + 1, s =>
    if s.isDone world then s
    else
      let s := settle patience s
      if s.isDone world then s
      else match s.nextAlarm? with
        | none => s
        | some (_, alarm) => waitFor world fuel { s with elapsed := alarm.due }

end Simulation

end WorldClock
