import WorldClock.Event.Log

/-!
# Events in a database

A database keeps versions in a signed 64-bit column. A row with a negative version is corrupt, and
an event with a version beyond the column is refused before it is sent.
-/

namespace WorldClock

/-- Why a database does not do what it is asked for. -/
inductive DatabaseError where
  /-- The database or the way to it fails. -/
  | server
  | corruptRow (version : Int)
  | malformedUrl
deriving DecidableEq

def DatabaseError.message : DatabaseError → String
  | .server => "PostgreSQL error: no connection"
  | .corruptRow version =>
    "Corrupt row: negative event version " ++ Decimal.signedText version
  | .malformedUrl => "Configuration error: Invalid database URL: no absolute URL"

def DatabaseError.toLogError (e : DatabaseError) : LogError := .backend e.message

/-- A row of the table of events. -/
structure EventRow where
  id : EventId
  tag : String
  aggregateId : String
  aggregateType : String
  version : Int
  occurredAt : Instant
  payload : Bytes
deriving DecidableEq

def EventRow.toEvent (r : EventRow) : Except DatabaseError Event :=
  if r.version < 0 then .error (.corruptRow r.version)
  else .ok {
    id := r.id
    tag := r.tag
    aggregateId := r.aggregateId
    aggregateType := r.aggregateType
    version := Count.ofNat r.version.toNat
    timestamp := r.occurredAt
    payload := r.payload }

def greatestColumnVersion : Nat := 2 ^ 63 - 1

def Event.columnFault? (e : Event) : Option EventFault :=
  match e.fault? with
  | some fault => some fault
  | none =>
    if greatestColumnVersion < e.version.toNat then some (.versionBeyondColumn e.version) else none

def Event.closedError (e : Event) : LogError :=
  match e.columnFault? with
  | some fault => .invalid fault
  | none => DatabaseError.server.toLogError

/-- How a connection to a database is made. -/
structure DatabaseSettings where
  url : String
  maxConnections : Nat
  acquireTimeout : Duration
  idleTimeout : Duration
deriving DecidableEq

namespace DatabaseSettings

def forUrl (url : String) : DatabaseSettings where
  url := url
  maxConnections := 10
  acquireTimeout := Duration.ofSeconds 5
  idleTimeout := Duration.ofSeconds 300

/-- Whether a text starts with the scheme of an address: a letter, then letters, digits, plus,
minus or points, up to a colon. -/
def hasScheme (url : String) : Bool :=
  match url.toList with
  | [] => false
  | c :: rest =>
    let scheme := rest.takeWhile fun c => c.isAlphanum || c == '+' || c == '-' || c == '.'
    c.isAlpha && (rest.drop scheme.length).head? == some ':'

def connectError (s : DatabaseSettings) : DatabaseError :=
  if hasScheme s.url then .server else .malformedUrl

end DatabaseSettings

end WorldClock
