import WorldClock.Instant.Basic

/-!
# Catching up

A world that was paused makes up for the pause when it is resumed: one tick for each whole tick
interval of real time that was missed. When this is itself interrupted, the mark of the new pause is
moved back by the ticks that are still owed.
-/

namespace WorldClock

/-- What a resumed world has to make up for. -/
structure CatchUpPlan where
  missed : Duration
  /-- Whole tick intervals in it. -/
  units : Count
deriving DecidableEq, Inhabited

namespace CatchUpPlan

/-- The plan for a pause from one instant to another. A pause that begins later than it ends has
nothing to make up for, and neither has one counted in intervals of no length. -/
def between (pausedAt now : Instant) (interval : Duration) : CatchUpPlan :=
  let missed := pausedAt.elapsedUntil now
  ⟨missed, Count.ofNat (missed.nanos / interval.nanos)⟩

def isEmpty (p : CatchUpPlan) : Bool := decide (p.units = 0)

end CatchUpPlan

/-- The longest way back in time, in nanoseconds. -/
def Instant.greatestStep : Nat := 2 ^ 63 - 1

/-- The instant so many intervals earlier. A way back that is too long is cut; where there is no
such instant it is the first one. -/
def Instant.backDated (now : Instant) (interval : Duration) (units : Count) : Instant :=
  (now.shift? (-(min (interval.nanos * units.toNat) greatestStep : Nat))).getD earliest

end WorldClock
