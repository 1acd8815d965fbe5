import WorldClock.Event.IndexedLog

/-!
# Reading histories

The history of an aggregate is read up to a version or an instant. Reading may end at the first
event beyond the bound, which is right where each aggregate has one writer, or go through the
whole history.
-/

namespace WorldClock

/-- How a bound on a history is applied. -/
inductive ScanMode where
  /-- Reading ends at the first event beyond the bound. -/
  | earlyExit
  /-- The whole history is read and events beyond the bound are left out. -/
  | fullScan
deriving DecidableEq, Repr, Inhabited

namespace ScanMode

def name : ScanMode → String
  | .earlyExit => "OrderedEarlyExit"
  | .fullScan => "FullScan"

def select (m : ScanMode) (within : Event → Bool) (history : List Event) : List Event :=
  match m with
  | .earlyExit => history.takeWhile within
  | .fullScan => history.filter within

/-- Whether an event of a history that is read from version `first` on has a version up to `last`.
An early exit leaves the lower bound to the read. -/
def inRange (m : ScanMode) (first last : Count) (e : Event) : Bool :=
  match m with
  | .earlyExit => decide (e.version ≤ last)
  | .fullScan => decide (first ≤ e.version ∧ e.version ≤ last)

end ScanMode

def EventLog.upTo (log : EventLog) (m : ScanMode) (aggregateId : String) (last : Instant) :
    List Event :=
  m.select (fun e => decide (e.timestamp ≤ last)) (log.byAggregate aggregateId 1)

namespace IndexedLog

/-- The events of an aggregate with versions from `first` to `last`. -/
def versions (log : IndexedLog) (m : ScanMode) (aggregateId : String) (first last : Count) :
    List Event :=
  if last < first then []
  else m.select (m.inRange first last) (log.byAggregate aggregateId first)

def upTo (log : IndexedLog) (m : ScanMode) (aggregateId : String) (last : Instant) : List Event :=
  m.select (fun e => decide (e.timestamp ≤ last)) (log.byAggregate aggregateId 1)

end IndexedLog

end WorldClock
