import WorldClock.Power

/-!
# Counts

Tick counts, versions and lengths in milliseconds are 64-bit counts. They stop at the greatest
count instead of wrapping around.
-/

namespace WorldClock

/-- A whole number below `2 ^ 64`. -/
abbrev Count := UInt64

namespace Count

def greatest : Nat := 2 ^ 64 - 1

/-- The count of a natural number, the greatest count for one that is too large. -/
def ofNat (n : Nat) : Count :=
  UInt64.ofNat (min n greatest)

/-- The count of a natural number, if it is small enough. -/
def ofNat? (n : Nat) : Option Count :=
  if n ≤ greatest then some (UInt64.ofNat n) else none

/-- The sum, or the greatest count. -/
def add (a b : Count) : Count :=
  ofNat (a.toNat + b.toNat)

/-- The next count; the greatest one has itself after it. -/
def next (a : Count) : Count :=
  ofNat (a.toNat + 1)

def sub (a b : Count) : Count :=
  ofNat (a.toNat - b.toNat)

theorem toNat_le_greatest (a : Count) : a.toNat ≤ greatest := by
  have := a.toNat_lt
  simp only [greatest]
  omega

@[simp]
theorem toNat_ofNat (n : Nat) : (ofNat n).toNat = min n greatest := by
  simp only [ofNat, greatest, UInt64.toNat_ofNat']
  omega

@[simp]
theorem toNat_add (a b : Count) : (add a b).toNat = min (a.toNat + b.toNat) greatest := by
  simp [add]

@[simp]
theorem toNat_next (a : Count) : (next a).toNat = min (a.toNat + 1) greatest := by
  simp [next]

@[simp]
theorem toNat_sub (a b : Count) : (sub a b).toNat = a.toNat - b.toNat := by
  have := toNat_le_greatest a
  simp only [sub, toNat_ofNat]
  omega

theorem ofNat_toNat (a : Count) : ofNat a.toNat = a := by
  apply UInt64.toNat_inj.mp
  have := toNat_le_greatest a
  simp [Nat.min_eq_left this]

end Count

end WorldClock
