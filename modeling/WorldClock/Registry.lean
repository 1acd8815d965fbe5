import WorldClock.World.Basic
import WorldClock.World.Table

/-!
# The registry

The registry holds the clocks of all worlds in use. A world is registered once and then only
updated. An update that would turn a clock back, change its identifier, or leave the mark of a pause
out of step with the status is refused and changes nothing.
-/

namespace WorldClock

/-- How an update would break a clock. -/
inductive Regression where
  | idChanged (after : WorldId)
  | ticksDecrease (before after : Count)
  | gameTimeDecreases (before after : Duration)
  | markerMisfit (status : Status)
deriving DecidableEq

def Regression.message : Regression → String
  | .idChanged after => "id changed to " ++ after.text
  | .ticksDecrease before after =>
    "tick_count would decrease from " ++ Decimal.text before.toNat ++ " to " ++
      Decimal.text after.toNat
  | .gameTimeDecreases before after =>
    "game_time would decrease from " ++ before.describe ++ " to " ++ after.describe
  | .markerMisfit status =>
    "paused_at must be present exactly when paused (status " ++ status.name ++ ")"

/-- Why the registry does not do what it is asked for. -/
inductive RegistryError where
  | alreadyExists (world : WorldId)
  | notFound (world : WorldId)
  | regression (world : WorldId) (reason : Regression)
deriving DecidableEq

def RegistryError.message : RegistryError → String
  | .alreadyExists world => "world " ++ world.text ++ " is already registered"
  | .notFound world => "world " ++ world.text ++ " not found"
  | .regression world reason => "rejected update to world " ++ world.text ++ ": " ++ reason.message

/-- The first way in which a new state of a world breaks its clock. -/
def World.regression? (old new : World) : Option Regression :=
  if new.id ≠ old.id then some (.idChanged new.id)
  else if new.tickCount < old.tickCount then some (.ticksDecrease old.tickCount new.tickCount)
  else if new.gameTime < old.gameTime then some (.gameTimeDecreases old.gameTime new.gameTime)
  else if !new.markerFits then some (.markerMisfit new.status)
  else none

/-- The clocks of the worlds in use. -/
structure Registry where
  table : WorldTable World
deriving DecidableEq, Inhabited

namespace Registry

def empty : Registry := ⟨WorldTable.empty⟩

def get? (r : Registry) (world : WorldId) : Option World := r.table.get? world

def get (r : Registry) (world : WorldId) : Except RegistryError World :=
  match r.get? world with
  | some w => .ok w
  | none => .error (.notFound world)

def worlds (r : Registry) : List WorldId := r.table.worlds

def register (r : Registry) (w : World) : Except RegistryError Registry :=
  if r.table.contains w.id then .error (.alreadyExists w.id)
  else .ok ⟨r.table.set w.id w⟩

def update (r : Registry) (world : WorldId) (change : World → World) :
    Except RegistryError (World × Registry) :=
  match r.get? world with
  | none => .error (.notFound world)
  | some old =>
    match old.regression? (change old) with
    | some reason => .error (.regression world reason)
    | none => .ok (change old, ⟨r.table.set world (change old)⟩)

end Registry

end WorldClock
