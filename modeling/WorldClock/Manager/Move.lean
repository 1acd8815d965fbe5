import WorldClock.Manager.Basic

/-!
# Moves

Everything that can happen to a process is a `Move`, and a run is a list of moves with the moments
at which they happen. Any move may come at any time: one that fits nothing under way changes
nothing. So a statement about all lists of moves holds of every schedule of the tickers, every
outcome of their calls, and every interference from outside.
-/

namespace WorldClock

/-- Something that happens to a process. -/
inductive Move where
  | spawn (order : SpawnOrder)
  | stop (world : WorldId)
  /-- The errand looks whether the ticker it waits for is over. -/
  | join
  /-- The errand reads the log, or learns why it cannot. -/
  | read (failure : Option LogError)
  /-- The log takes the event that the errand has sent. -/
  | file
  /-- The append that the errand waits for ends. -/
  | conclude (reply : Reply LogError)
  | poll (world : WorldId)
  /-- A ticker's publication or weather call ends. -/
  | answer (world : WorldId) (reply : Reply CallError)
  /-- The log takes the event that a ticker has sent. -/
  | fileFor (world : WorldId)
  /-- The append that a ticker waits for ends. -/
  | concludeFor (world : WorldId) (reply : Reply LogError)
  | crash (world : WorldId) (culprit : String)
  /-- Someone else updates a world in the registry. -/
  | update (world : WorldId) (change : World → World)

namespace Manager

def stepTicker (p : Manager) (world : WorldId)
    (step : Ticker → Surroundings → Ticker × Surroundings) : Manager :=
  match p.tickers.get? world with
  | none => p
  | some t =>
    let (t, s) := step t p.surroundings
    { p with tickers := p.tickers.set world t, surroundings := s }

def apply (p : Manager) (m : Moment) : Move → Manager
  | .spawn order => if p.isBusy then p else p.beginSpawn order
  | .stop world => if p.isBusy then p else p.beginStop world
  | .join =>
    match p.errand with
    | some (.stop world .joining) => p.join m world
    | _ => p
  | .read failure => p.read m failure
  | .file => p.file
  | .conclude reply => p.conclude m reply
  | .poll world => p.stepTicker world (Ticker.poll p.wiring m)
  | .answer world reply => p.stepTicker world (Ticker.answer p.wiring m reply)
  | .fileFor world => p.stepTicker world Ticker.file
  | .concludeFor world reply => p.stepTicker world (Ticker.conclude p.wiring m reply)
  | .crash world culprit => p.stepTicker world fun t s => (t.crash culprit, s)
  | .update world change =>
    match p.surroundings.registry.update world change with
    | .error _ => p
    | .ok (_, registry) => p.withRegistry registry

def run (p : Manager) (moves : List (Moment × Move)) : Manager :=
  moves.foldl (fun p (m, move) => p.apply m move) p

/-- The process that takes over after this one has died: only the log is left. -/
def restart (p : Manager) (projections : Option (Dispatcher ReadModel)) : Manager :=
  start p.wiring p.surroundings.log projections

end Manager

end WorldClock
