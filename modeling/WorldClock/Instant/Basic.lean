import WorldClock.Duration

/-!
# Instants

An `Instant` is a point of real time: nanoseconds since 1 January 1970, between the first moment of
the year -262143 and the last of the year 262142. Moving an instant may leave that range; `shift?`
says so. Leap seconds are not represented, since the clock of a process never shows one; times that
are written down and may lie in a leap second are `Utc`, and where a mark or a timestamp is read
from such a text, the leap second is taken for the second after it.
-/

namespace WorldClock

def Instant.minNanos : Int := -8334601228800000000000

def Instant.maxNanos : Int := 8210266876799999999999

/-- A point of real time. -/
structure Instant where
  nanos : Int
  min_le : Instant.minNanos ≤ nanos
  le_max : nanos ≤ Instant.maxNanos
deriving DecidableEq

namespace Instant

@[ext]
theorem ext {a b : Instant} (h : a.nanos = b.nanos) : a = b := by
  cases a; cases b; simp_all

def ofNanos? (n : Int) : Option Instant :=
  if h : minNanos ≤ n ∧ n ≤ maxNanos then some ⟨n, h.1, h.2⟩ else none

/-- The instant so many nanoseconds after 1970, or the nearest one there is. -/
def clamp (n : Int) : Instant :=
  ⟨max minNanos (min n maxNanos), Int.le_max_left _ _, by
    simp only [minNanos, maxNanos]
    omega⟩

def epoch : Instant := ⟨0, by decide, by decide⟩

instance : Inhabited Instant := ⟨epoch⟩

def earliest : Instant := ⟨minNanos, Int.le_refl _, by decide⟩

def latest : Instant := ⟨maxNanos, by decide, Int.le_refl _⟩

theorem nanos_clamp {n : Int} (h : minNanos ≤ n) : (clamp n).nanos = min n maxNanos := by
  simp only [clamp, minNanos, maxNanos] at *
  omega

/-- What is cut off at the last instant is not moved where there is an instant for it. -/
theorem ofNanos?_getD {n : Int} (h : minNanos ≤ n) : (ofNanos? n).getD latest = clamp n := by
  refine ext ?_
  rw [nanos_clamp h, ofNanos?]
  split
  · next hrange => exact (Int.min_eq_left hrange.2).symm
  · next hrange => exact (Int.min_eq_right (by omega : maxNanos ≤ n)).symm

instance : LE Instant := ⟨fun a b => a.nanos ≤ b.nanos⟩
instance : LT Instant := ⟨fun a b => a.nanos < b.nanos⟩
instance (a b : Instant) : Decidable (a ≤ b) := inferInstanceAs (Decidable (a.nanos ≤ b.nanos))
instance (a b : Instant) : Decidable (a < b) := inferInstanceAs (Decidable (a.nanos < b.nanos))

def shift? (t : Instant) (n : Int) : Option Instant := ofNanos? (t.nanos + n)

/-- The time from one instant to a later one; none if the other is the later one. -/
def elapsedUntil (t later : Instant) : Duration := Duration.ofNanos (later.nanos - t.nanos).toNat

/-- Whole milliseconds since 1970, rounded down. -/
def millis (t : Instant) : Int := t.nanos / (nanosPerMilli : Int)

end Instant

end WorldClock
