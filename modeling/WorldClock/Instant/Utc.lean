import WorldClock.Instant.Basic

/-!
# Universal time with its leap seconds

The clock of a process shows no leap seconds, but a time that is written down may lie in one. A
`Utc` is such a time. In a leap second, the sixty-first of a minute, `seconds` stands still while
`nanos` goes on from one to two thousand million. Nothing is known of the minutes that had a leap
second, so each of them may have one.

Adding to a time counts no leap seconds. What leads out of the leap second that it starts in counts
as if it had started in the second before, and so comes out a second early.
-/

namespace WorldClock

def Utc.minSeconds : Int := -8334601228800

def Utc.maxSeconds : Int := 8210266876799

/-- A time of Coordinated Universal Time: seconds since 1970, leap seconds left out, and nanoseconds
past them. -/
structure Utc where
  seconds : Int
  nanos : Nat
  min_le : Utc.minSeconds ≤ seconds
  le_max : seconds ≤ Utc.maxSeconds
  nanos_lt : nanos < nanosPerSecond ∨ seconds % 60 = 59 ∧ nanos < 2 * nanosPerSecond
deriving DecidableEq

/-- What the clock of a process shows as a time without leap seconds. -/
def Instant.toUtc (t : Instant) : Utc where
  seconds := t.nanos / (nanosPerSecond : Int)
  nanos := (t.nanos % (nanosPerSecond : Int)).toNat
  min_le := by
    have := t.min_le
    simp only [minNanos, Utc.minSeconds, nanosPerSecond] at *
    omega
  le_max := by
    have := t.le_max
    simp only [maxNanos, Utc.maxSeconds, nanosPerSecond] at *
    omega
  nanos_lt := by
    simp only [nanosPerSecond]
    omega

namespace Utc

def ofParts? (seconds : Int) (nanos : Nat) : Option Utc :=
  if h : minSeconds ≤ seconds ∧ seconds ≤ maxSeconds ∧
      (nanos < nanosPerSecond ∨ seconds % 60 = 59 ∧ nanos < 2 * nanosPerSecond) then
    some ⟨seconds, nanos, h.1, h.2.1, h.2.2⟩
  else none

/-- The last time that is not in a leap second. -/
def latest : Utc := Instant.latest.toUtc

def isLeap (u : Utc) : Bool := decide (nanosPerSecond ≤ u.nanos)

/-- Nanoseconds since 1970, leap seconds left out. Those of a leap second count for the second after
it once more. -/
def unixNanos (u : Utc) : Int := u.seconds * (nanosPerSecond : Int) + u.nanos

/-- Nanoseconds since 1970, where a leap second counts for the second before it. -/
def plainNanos (u : Utc) : Int :=
  u.seconds * (nanosPerSecond : Int) + (u.nanos % nanosPerSecond : Nat)

/-- The instant of a time that is written down. A leap second is taken for the second after it. -/
def toInstant? (u : Utc) : Option Instant := Instant.ofNanos? u.unixNanos

theorem unixNanos_toUtc (t : Instant) : t.toUtc.unixNanos = t.nanos := by
  simp only [unixNanos, Instant.toUtc, nanosPerSecond]
  omega

theorem isLeap_toUtc (t : Instant) : t.toUtc.isLeap = false := by
  refine decide_eq_false ?_
  simp only [Instant.toUtc, nanosPerSecond]
  omega

theorem plainNanos_of_not_isLeap {u : Utc} (h : u.isLeap = false) :
    u.plainNanos = u.unixNanos := by
  rw [plainNanos, Nat.mod_eq_of_lt (Nat.lt_of_not_le (of_decide_eq_false h))]
  rfl

theorem plainNanos_of_isLeap {u : Utc} (h : u.isLeap = true) :
    u.plainNanos = u.unixNanos - nanosPerSecond := by
  have hleap : nanosPerSecond ≤ u.nanos := of_decide_eq_true h
  have hlt := u.nanos_lt
  simp only [plainNanos, unixNanos, nanosPerSecond] at *
  omega

theorem min_le_plainNanos (u : Utc) : Instant.minNanos ≤ u.plainNanos := by
  have := u.min_le
  simp only [Instant.minNanos, minSeconds, plainNanos, nanosPerSecond] at *
  omega

instance : LE Utc :=
  ⟨fun a b => a.seconds < b.seconds ∨ a.seconds = b.seconds ∧ a.nanos ≤ b.nanos⟩
instance : LT Utc :=
  ⟨fun a b => a.seconds < b.seconds ∨ a.seconds = b.seconds ∧ a.nanos < b.nanos⟩
instance (a b : Utc) : Decidable (a ≤ b) :=
  inferInstanceAs (Decidable (a.seconds < b.seconds ∨ a.seconds = b.seconds ∧ a.nanos ≤ b.nanos))
instance (a b : Utc) : Decidable (a < b) :=
  inferInstanceAs (Decidable (a.seconds < b.seconds ∨ a.seconds = b.seconds ∧ a.nanos < b.nanos))

theorem le_iff {a b : Utc} :
    a ≤ b ↔ a.seconds < b.seconds ∨ a.seconds = b.seconds ∧ a.nanos ≤ b.nanos := Iff.rfl

theorem lt_iff {a b : Utc} :
    a < b ↔ a.seconds < b.seconds ∨ a.seconds = b.seconds ∧ a.nanos < b.nanos := Iff.rfl

/-- Whether a time is in a leap second and so many nanoseconds later still is. -/
def staysLeap (u : Utc) (offset : Nat) : Bool :=
  u.isLeap && decide (u.nanos + offset < 2 * nanosPerSecond)

theorem staysLeap_of_isLeap {u : Utc} (h : u.isLeap = true) (offset : Nat) :
    u.staysLeap offset = decide (u.nanos + offset < 2 * nanosPerSecond) := by
  rw [staysLeap, h, Bool.true_and]

theorem isLeap_of_staysLeap {u : Utc} {offset : Nat} (h : u.staysLeap offset = true) :
    u.isLeap = true :=
  (Bool.and_eq_true_iff.mp h).1

theorem nanos_lt_of_staysLeap {u : Utc} {offset : Nat} (h : u.staysLeap offset = true) :
    u.seconds % 60 = 59 ∧ u.nanos + offset < 2 * nanosPerSecond := by
  simp only [staysLeap, isLeap, Bool.and_eq_true, decide_eq_true_eq] at h
  have := u.nanos_lt
  omega

/-- The time so many nanoseconds later, if there is one. -/
def add? (u : Utc) (offset : Nat) : Option Utc :=
  if h : u.staysLeap offset = true then
    some ⟨u.seconds, u.nanos + offset, u.min_le, u.le_max, .inr (nanos_lt_of_staysLeap h)⟩
  else (Instant.ofNanos? (u.plainNanos + offset)).map Instant.toUtc

def maxOffsetMillis : Nat := 2 ^ 63 - 1

/-- A duration in nanoseconds, if it is not too long to be added to a time. -/
def offset? (d : Duration) : Option Nat :=
  if d.nanos ≤ maxOffsetMillis * nanosPerMilli then some d.nanos else none

end Utc

end WorldClock
