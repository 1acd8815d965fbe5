import WorldClock.Notice
import WorldClock.Registry
import WorldClock.Ticker.Basic
import WorldClock.Timeline

/-!
# The surroundings of tickers

What the tickers of a process share: the registry, the log, the projections, and a record of what
was told and called.
-/

namespace WorldClock

/-- The state of a projection of the program: timelines, or a list of the events it has seen. -/
inductive ReadModel where
  | timelines (table : Timelines)
  | seen (events : List (String × Count))
deriving DecidableEq

namespace ReadModel

def timelineProjection : Projection ReadModel where
  name := Timelines.projectionName
  state := .timelines WorldTable.empty
  handle model e :=
    match model with
    | .timelines table => (table.handle e).map .timelines
    | .seen events => .ok (.seen events)

/-- A projection that notes tag and version of each event but refuses some versions. -/
def recorder (name : String) (refused : List Count) : Projection ReadModel where
  name := name
  state := .seen []
  handle model e :=
    if refused.contains e.version then .error (.unwanted (name ++ " refused"))
    else match model with
      | .seen events => .ok (.seen (events ++ [(e.tag, e.version)]))
      | .timelines table => .ok (.timelines table)

/-- The latest timeline of a world. Of several projections that keep timelines the last one
counts. -/
def timeline? (d : Dispatcher ReadModel) (world : WorldId) : Option Timeline :=
  let tables := d.projections.filterMap fun p =>
    match p.state with
    | .timelines table => some table
    | .seen _ => none
  tables.getLast?.bind fun table => table.get? world

end ReadModel

/-- A call that a ticker has made. -/
inductive Call where
  | published (snapshot : Snapshot)
  | weather (world : WorldId) (synthetic : Utc) (season : Season)
deriving DecidableEq

def Call.world : Call → WorldId
  | .published s => s.world
  | .weather world _ _ => world

/-- What the tickers of a process share. -/
structure Surroundings where
  registry : Registry
  log : EventLog
  projections : Option (Dispatcher ReadModel)
  /-- What was told, the latest first. -/
  notices : List Notice
  /-- What was called, the latest first. -/
  calls : List Call

namespace Surroundings

def start (log : EventLog) (projections : Option (Dispatcher ReadModel)) : Surroundings :=
  ⟨Registry.empty, log, projections, [], []⟩

def tell (s : Surroundings) (world : WorldId) (n : WorldNotice) : Surroundings :=
  { s with notices := .world world n :: s.notices }

def call (s : Surroundings) (c : Call) : Surroundings := { s with calls := c :: s.calls }

/-- Hands a stored event to the projections. A refusal is told and passed over. -/
def project (s : Surroundings) (world : WorldId) (e : Event) : Surroundings :=
  match s.projections with
  | none => s
  | some d =>
    match d.project e with
    | (d, none) => { s with projections := some d }
    | (d, some error) =>
      { s with projections := some d }.tell world (.projectionFailed error.message)

def file (s : Surroundings) (f : Filing) : Filing × Surroundings :=
  let (f, log) := f.file s.log
  (f, { s with log := log })

end Surroundings

end WorldClock
