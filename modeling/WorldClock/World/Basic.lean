import WorldClock.Binary64
import WorldClock.Identifier

/-!
# Worlds

A `World` is the clock of one simulated world: how many ticks it has made, how much simulated time
has passed in it, and whether it runs. A world that is paused carries the instant of its pause, and
no other world does; `World.markerFits` says so.
-/

namespace WorldClock

/-- What a world's clock is doing. -/
inductive Status where
  | running
  | paused
  /-- It makes up for the ticks of a pause. -/
  | catchingUp
  | stopped
deriving DecidableEq, Repr, Inhabited

namespace Status

def all : List Status := [.running, .paused, .catchingUp, .stopped]

def name : Status → String
  | .running => "Running"
  | .paused => "Paused"
  | .catchingUp => "CatchingUp"
  | .stopped => "Stopped"

def ofName? (s : String) : Option Status := all.find? fun status => status.name == s

theorem ofName?_name (s : Status) : ofName? s.name = some s := by
  cases s <;> decide

end Status

/-- The clock of one world. -/
structure World where
  id : WorldId
  name : String
  status : Status
  tickCount : Count
  gameTime : Duration
  /-- Simulated time that passes in one unit of real time. -/
  dilation : Binary64
  createdAt : Instant
  /-- The instant of the last tick; before the first one, of the creation. -/
  lastTickAt : Instant
  /-- The instant of the pause, while paused. -/
  pausedAt : Option Instant
  /-- The game time at which the weather was last asked for. -/
  weatherSyncedAt : Duration
deriving DecidableEq, Inhabited

namespace World

def starting (id : WorldId) (name : String) (dilation : Binary64) (now : Instant) : World where
  id := id
  name := name
  status := .running
  tickCount := 0
  gameTime := Duration.zero
  dilation := dilation
  createdAt := now
  lastTickAt := now
  pausedAt := none
  weatherSyncedAt := Duration.zero

/-- Whether the world carries the instant of a pause exactly when it is paused. -/
def markerFits (w : World) : Bool :=
  decide (w.status = .paused) == w.pausedAt.isSome

def ticked (delta : Duration) (now : Instant) (w : World) : World :=
  { w with
    tickCount := w.tickCount.next
    gameTime := w.gameTime.add delta
    lastTickAt := now }

def paused (at_ : Instant) (w : World) : World :=
  { w with status := .paused, pausedAt := some at_ }

theorem markerFits_starting (id : WorldId) (name : String) (dilation : Binary64) (now : Instant) :
    (starting id name dilation now).markerFits := rfl

theorem markerFits_paused (t : Instant) (w : World) : (paused t w).markerFits := rfl

end World

end WorldClock
