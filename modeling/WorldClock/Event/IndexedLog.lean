import Std.Data.HashMap
import Std.Data.TreeMap
import WorldClock.Event.Log

/-!
# A log with an index

An `IndexedLog` keeps its events in the order in which they came in, and for each aggregate a table
that leads from a version to the place of its event. The table tells whether a version is taken, and
the history of an aggregate is read along it; all other reads go through the events.
-/

namespace WorldClock

/-- A log kept in memory, with an index by aggregate and version. -/
structure IndexedLog where
  /-- The events as they came in. -/
  arrivals : Array Event
  /-- For each aggregate, the places of its versions among the arrivals. -/
  places : Std.HashMap String (Std.TreeMap Count Nat)

namespace IndexedLog

def empty : IndexedLog := ⟨#[], ∅⟩

instance : Inhabited IndexedLog := ⟨empty⟩

/-- The log without its index. -/
def toLog (log : IndexedLog) : EventLog := ⟨log.arrivals.toList.reverse⟩

def size (log : IndexedLog) : Nat := log.arrivals.size

/-- The table of an aggregate, which is empty if the index has none. -/
def tableOf (log : IndexedLog) (aggregateId : String) : Std.TreeMap Count Nat :=
  log.places.getD aggregateId ∅

/-- An aggregate gets its table before the version is looked up in it. -/
def append (log : IndexedLog) (e : Event) : Except LogError Unit × IndexedLog :=
  match e.fault? with
  | some fault => (.error (.invalid fault), log)
  | none =>
    let table := log.tableOf e.aggregateId
    if table.contains e.version then
      (.error (.conflict e.aggregateId e.version),
        { log with places := log.places.insert e.aggregateId table })
    else
      (.ok (), {
        arrivals := log.arrivals.push e
        places := log.places.insert e.aggregateId (table.insert e.version log.size) })

/-- The events at some places; a place that is not taken is passed over. -/
def collect (log : IndexedLog) (places : List Nat) : List Event :=
  places.filterMap fun place => log.arrivals[place]?

/-- The events of an aggregate from a version on, in the order of their versions. -/
def byAggregate (log : IndexedLog) (aggregateId : String) (first : Count) : List Event :=
  match log.places[aggregateId]? with
  | none => []
  | some table =>
    log.collect ((table.toList.filter fun (version, _) => decide (first ≤ version)).map (·.2))

/-- The events with a tag between two instants, in the order of their instants. -/
def byTag (log : IndexedLog) (tag : String) (first last : Instant) : List Event :=
  log.toLog.byTag tag first last

/-- The first `limit` events from an instant on, in the order of their instants. -/
def since (log : IndexedLog) (first : Instant) (limit : Nat) : List Event :=
  log.toLog.since first limit

def latestVersion? (log : IndexedLog) (aggregateId : String) : Option Count :=
  log.places[aggregateId]?.bind (·.maxKey?)

/-- The version of the last event of an aggregate, as its history shows it. -/
def lastVersion? (log : IndexedLog) (aggregateId : String) : Option Count :=
  ((log.byAggregate aggregateId 1).getLast?).map (·.version)

end IndexedLog

end WorldClock
