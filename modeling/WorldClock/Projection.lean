import WorldClock.Event.IndexedLog

/-!
# Projections

A projection folds events into a state of its own and may refuse an event, which leaves the state
as it was. A `Dispatcher` hands each event to its projections in their order, up to the first one
that refuses it.
-/

namespace WorldClock

/-- Why a projection refuses an event. -/
inductive Refusal where
  /-- The aggregate of a world event is no world. -/
  | badWorldId (text : String)
  /-- The payload tells nothing of the event's kind. -/
  | badPayload (tag : String) (version : Count)
  /-- The world was never created. -/
  | beforeCreation (tag : String) (world : WorldId)
  | unwanted (reason : String)
deriving DecidableEq

def Refusal.message : Refusal → String
  | .badWorldId text => "bad world id " ++ text ++ ": no identifier"
  | .badPayload tag version =>
    "bad " ++ tag ++ " payload at v" ++ Decimal.text version.toNat ++ ": no such record"
  | .beforeCreation tag world => tag ++ " for world " ++ world.text ++ " before its creation"
  | .unwanted reason => reason

/-- A state machine that is fed with events. -/
structure Projection (σ : Type) where
  name : String
  state : σ
  handle : σ → Event → Except Refusal σ

/-- The refusal of an event by one of several projections. -/
structure DispatchError where
  projection : String
  tag : String
  version : Count
  refusal : Refusal
deriving DecidableEq

def DispatchError.message (e : DispatchError) : String :=
  "projection " ++ e.projection ++ " failed on event " ++ e.tag ++ " v" ++
    Decimal.text e.version.toNat ++ ": " ++ e.refusal.message

/-- Projections in the order in which they are fed. -/
structure Dispatcher (σ : Type) where
  projections : List (Projection σ)

instance {σ : Type} : Inhabited (Dispatcher σ) := ⟨⟨[]⟩⟩

namespace Dispatcher

variable {σ : Type}

def empty : Dispatcher σ := ⟨[]⟩

def register (d : Dispatcher σ) (p : Projection σ) : Dispatcher σ := ⟨d.projections ++ [p]⟩

/-- Hands an event to projections in order. The error names the first one that refuses the event;
those before it have taken it. -/
def feed (e : Event) : List (Projection σ) → List (Projection σ) × Option DispatchError
  | [] => ([], none)
  | p :: rest =>
    match p.handle p.state e with
    | .error refusal => (p :: rest, some ⟨p.name, e.tag, e.version, refusal⟩)
    | .ok state =>
      let (rest, error) := feed e rest
      ({ p with state := state } :: rest, error)

def project (d : Dispatcher σ) (e : Event) : Dispatcher σ × Option DispatchError :=
  let (projections, error) := feed e d.projections
  (⟨projections⟩, error)

/-- Hands events on in order, up to the first one that is refused; counts those that were not. -/
def projectAll (d : Dispatcher σ) : List Event → Dispatcher σ × Except DispatchError Nat
  | [] => (d, .ok 0)
  | e :: rest =>
    match d.project e with
    | (d, some error) => (d, .error error)
    | (d, none) =>
      let (d, result) := d.projectAll rest
      (d, result.map (· + 1))

def rebuild (d : Dispatcher σ) (log : EventLog) (aggregateId : String) :
    Dispatcher σ × Except DispatchError Nat :=
  d.projectAll (log.byAggregate aggregateId 1)

end Dispatcher

/-- Hands the history of an aggregate on, as it is read along the index of a log. -/
def IndexedLog.rebuild {σ : Type} (log : IndexedLog) (d : Dispatcher σ) (aggregateId : String) :
    Dispatcher σ × Except DispatchError Nat :=
  d.projectAll (log.byAggregate aggregateId 1)

/-- Why a history cannot be handed on. -/
inductive ReplayError where
  | log (error : LogError)
  | dispatch (error : DispatchError)
deriving DecidableEq

def ReplayError.message : ReplayError → String
  | .log e => "replay read failed: " ++ e.message
  | .dispatch e => "replay dispatch failed: " ++ e.message

end WorldClock
