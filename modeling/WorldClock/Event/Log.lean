import WorldClock.Event.Basic

/-!
# The event log

Events are only ever added. An event is refused if it is malformed, or if its aggregate has an
event of its version already; that is the only check on concurrent writers.
-/

namespace WorldClock

/-- What can be wrong with an event. -/
inductive EventFault where
  | zeroVersion
  | emptyAggregate
  | emptyTag
  /-- The version has no place in a database column. -/
  | versionBeyondColumn (version : Count)
deriving DecidableEq

def EventFault.message : EventFault → String
  | .zeroVersion => "version must be at least 1"
  | .emptyAggregate => "aggregate_id must not be empty"
  | .emptyTag => "event_type must not be empty"
  | .versionBeyondColumn v => "version " ++ Decimal.text v.toNat ++ " exceeds BIGINT range"

/-- Why a log does not do what it is asked for. -/
inductive LogError where
  | conflict (aggregateId : String) (version : Count)
  | invalid (fault : EventFault)
  | backend (reason : String)
deriving DecidableEq

def LogError.message : LogError → String
  | .conflict aggregateId version =>
    "concurrency conflict: " ++ aggregateId ++ " already has version " ++ Decimal.text version.toNat
  | .invalid fault => "invalid event: " ++ fault.message
  | .backend reason => "event log backend error: " ++ reason

/-- What is wrong with an event that no log may store. -/
def Event.fault? (e : Event) : Option EventFault :=
  if e.version = 0 then some .zeroVersion
  else if e.aggregateId.isEmpty then some .emptyAggregate
  else if e.tag.isEmpty then some .emptyTag
  else none

/-- A log kept in memory. -/
structure EventLog where
  /-- The events, the latest one first. -/
  newestFirst : List Event
deriving DecidableEq, Inhabited

namespace EventLog

def empty : EventLog := ⟨[]⟩

def events (log : EventLog) : List Event := log.newestFirst.reverse

def size (log : EventLog) : Nat := log.newestFirst.length

def hasVersion (log : EventLog) (aggregateId : String) (version : Count) : Bool :=
  log.newestFirst.any fun e => e.version == version && e.aggregateId == aggregateId

def append (log : EventLog) (e : Event) : Except LogError EventLog :=
  match e.fault? with
  | some fault => .error (.invalid fault)
  | none =>
    if log.hasVersion e.aggregateId e.version then .error (.conflict e.aggregateId e.version)
    else .ok ⟨e :: log.newestFirst⟩

/-- The events of an aggregate from a version on, in the order of their versions. -/
def byAggregate (log : EventLog) (aggregateId : String) (first : Count) : List Event :=
  (log.events.filter fun e => e.aggregateId == aggregateId && decide (first ≤ e.version)).mergeSort
    fun a b => decide (a.version ≤ b.version)

/-- Events in the order of their instants; those of one instant as they came in. -/
def sortByTime (events : List Event) : List Event :=
  events.mergeSort fun a b => decide (a.timestamp ≤ b.timestamp)

/-- The events with a tag between two instants, in the order of their instants. -/
def byTag (log : EventLog) (tag : String) (first last : Instant) : List Event :=
  sortByTime <| log.events.filter fun e =>
    e.tag == tag && decide (first ≤ e.timestamp) && decide (e.timestamp ≤ last)

/-- The first `limit` events from an instant on, in the order of their instants. -/
def since (log : EventLog) (first : Instant) (limit : Nat) : List Event :=
  (sortByTime (log.events.filter fun e => decide (first ≤ e.timestamp))).take limit

def greatestVersion? (events : List Event) : Option Count :=
  (events.map (·.version)).foldl
    (fun best v => match best with
      | none => some v
      | some b => some (if b ≤ v then v else b))
    none

def latestVersion? (log : EventLog) (aggregateId : String) : Option Count :=
  greatestVersion? (log.newestFirst.filter fun e => e.aggregateId == aggregateId)

/-- The version of the last event of an aggregate, as its history shows it. -/
def lastVersion? (log : EventLog) (aggregateId : String) : Option Count :=
  ((log.byAggregate aggregateId 1).getLast?).map (·.version)

end EventLog

end WorldClock
