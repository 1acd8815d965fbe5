import WorldClock.Count
import WorldClock.Decimal.Digits

/-!
# Lengths of time

A `Duration` is a whole number of nanoseconds, at most `2 ^ 64 - 1` seconds and 999999999
nanoseconds. Sums that would pass this bound stop at it. In events a duration is stored as a
64-bit count of nanoseconds or milliseconds, which again stops at its greatest value.
-/

namespace WorldClock

def nanosPerSecond : Nat := 1000000000

def nanosPerMilli : Nat := 1000000

def nanosPerMicro : Nat := 1000

def Duration.maxNanos : Nat := 2 ^ 64 * nanosPerSecond - 1

/-- A length of time. -/
structure Duration where
  nanos : Nat
  nanos_le : nanos ≤ Duration.maxNanos
deriving DecidableEq

namespace Duration

@[ext]
theorem ext {a b : Duration} (h : a.nanos = b.nanos) : a = b := by
  cases a; cases b; simp_all

/-- The duration of so many nanoseconds, the longest one if there are too many. -/
def ofNanos (n : Nat) : Duration :=
  ⟨min n maxNanos, Nat.min_le_right _ _⟩

/-- The duration of so many nanoseconds, if there are not too many. -/
def ofNanos? (n : Nat) : Option Duration :=
  if h : n ≤ maxNanos then some ⟨n, h⟩ else none

def zero : Duration := ⟨0, Nat.zero_le _⟩

instance : Inhabited Duration := ⟨zero⟩

def ofNanoCount (n : Count) : Duration := ofNanos n.toNat

def ofMillis (ms : Count) : Duration := ofNanos (ms.toNat * nanosPerMilli)

def ofSeconds (s : Count) : Duration := ofNanos (s.toNat * nanosPerSecond)

instance : LE Duration := ⟨fun a b => a.nanos ≤ b.nanos⟩
instance : LT Duration := ⟨fun a b => a.nanos < b.nanos⟩
instance (a b : Duration) : Decidable (a ≤ b) := inferInstanceAs (Decidable (a.nanos ≤ b.nanos))
instance (a b : Duration) : Decidable (a < b) := inferInstanceAs (Decidable (a.nanos < b.nanos))

/-- The sum, or the longest duration. -/
def add (a b : Duration) : Duration := ofNanos (a.nanos + b.nanos)

/-- The difference, or no time at all. -/
def sub (a b : Duration) : Duration := ofNanos (a.nanos - b.nanos)

/-- So many times the duration, or the longest one. -/
def times (a : Duration) (n : Nat) : Duration := ofNanos (a.nanos * n)

def max (a b : Duration) : Duration := if a ≤ b then b else a

def toNanoCount (d : Duration) : Count := Count.ofNat d.nanos

def toMillis (d : Duration) : Count := Count.ofNat (d.nanos / nanosPerMilli)

def seconds (d : Duration) : Nat := d.nanos / nanosPerSecond

def subsecond (d : Duration) : Nat := d.nanos % nanosPerSecond

@[simp]
theorem nanos_ofNanos (n : Nat) : (ofNanos n).nanos = min n maxNanos := rfl

@[simp]
theorem nanos_zero : zero.nanos = 0 := rfl

@[simp]
theorem nanos_add (a b : Duration) : (a.add b).nanos = min (a.nanos + b.nanos) maxNanos := rfl

theorem nanos_sub (a b : Duration) : (a.sub b).nanos = a.nanos - b.nanos := by
  have := a.nanos_le
  simp only [sub, nanos_ofNanos]
  omega

theorem nanos_max (a b : Duration) : (a.max b).nanos = Nat.max a.nanos b.nanos := by
  simp only [max, LE.le]
  split <;> rename_i h
  · exact (Nat.max_eq_right h).symm
  · exact (Nat.max_eq_left (Nat.le_of_not_le h)).symm

/-- A whole part and parts out of `10 ^ width`, without zeros at the end. -/
def withFraction (whole parts width : Nat) (unit : String) : String :=
  (Numeral.mk false (Decimal.digits whole) (Decimal.fractionDigits width parts) none).text ++ unit

/-- The duration in the largest unit, seconds at most, that has a whole part. -/
def describe (d : Duration) : String :=
  if nanosPerSecond ≤ d.nanos then withFraction d.seconds d.subsecond 9 "s"
  else if nanosPerMilli ≤ d.nanos then
    withFraction (d.nanos / nanosPerMilli) (d.nanos % nanosPerMilli) 6 "ms"
  else if nanosPerMicro ≤ d.nanos then
    withFraction (d.nanos / nanosPerMicro) (d.nanos % nanosPerMicro) 3 "µs"
  else withFraction d.nanos 0 0 "ns"

end Duration

end WorldClock
