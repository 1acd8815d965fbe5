import WorldClock.Power

/-!
# Rows of digits

A row of digits in a base stands for the number `Digits.value`, its first digit in the greatest
place. `Digits.ofNat` writes a number in as few digits as it takes, `Digits.fixed` in a given number
of them.

* `value_ofNat`, `value_fixed`: the digits of a number have its value.
-/

namespace WorldClock.Digits

variable {base : Nat}

def value (ds : List (Fin base)) : Nat :=
  ds.foldl (fun n d => base * n + d.val) 0

theorem value_append_singleton (ds : List (Fin base)) (d : Fin base) :
    value (ds ++ [d]) = base * value ds + d.val := by
  simp [value]

theorem value_cons (d : Fin base) (ds : List (Fin base)) :
    value (d :: ds) = d.val * base ^ ds.length + value ds := by
  have hfold (n : Nat) :
      ds.foldl (fun n d => base * n + d.val) n = n * base ^ ds.length + value ds := by
    induction ds generalizing n with
    | nil => simp [value]
    | cons d ds ih =>
      rw [value, List.foldl_cons, List.foldl_cons, ih, ih (base * 0 + d.val), List.length_cons,
        Nat.pow_succ]
      grind
  rw [value, List.foldl_cons, hfold, Nat.mul_zero, Nat.zero_add]

def last (hbase : 1 < base) (n : Nat) : Fin base :=
  ⟨n % base, Nat.mod_lt n (Nat.lt_of_succ_lt hbase)⟩

/-- The digits of a number in so many places; those in front of them are lost. -/
def fixed (hbase : 1 < base) : Nat → Nat → List (Fin base)
  | 0, _ => []
  | width + 1, n => fixed hbase width (n / base) ++ [last hbase n]

/-- The digits of a number, without leading zeros; zero has the one digit zero. -/
def ofNat (hbase : 1 < base) (n : Nat) : List (Fin base) :=
  if h : n < base then [⟨n, h⟩] else ofNat hbase (n / base) ++ [last hbase n]
termination_by n
decreasing_by exact Nat.div_lt_self (by omega) hbase

theorem value_append_last (hbase : 1 < base) {ds : List (Fin base)} {n : Nat}
    (h : value ds = n / base) : value (ds ++ [last hbase n]) = n := by
  rw [value_append_singleton, h]
  exact Nat.div_add_mod n base

theorem length_fixed (hbase : 1 < base) (width n : Nat) : (fixed hbase width n).length = width := by
  induction width generalizing n with
  | zero => rfl
  | succ width ih => simp [fixed, ih]

theorem value_fixed (hbase : 1 < base) {width n : Nat} (h : n < base ^ width) :
    value (fixed hbase width n) = n := by
  induction width generalizing n with
  | zero => simp_all [fixed, value]
  | succ width ih =>
    refine value_append_last hbase (ih ?_)
    rw [Nat.pow_succ] at h
    exact Nat.div_lt_of_lt_mul (Nat.mul_comm _ _ ▸ h)

theorem value_ofNat (hbase : 1 < base) (n : Nat) : value (ofNat hbase n) = n := by
  induction n using Nat.strongRecOn with
  | ind n ih =>
    rw [ofNat]
    split
    · simp [value]
    · exact value_append_last hbase (ih (n / base) (Nat.div_lt_self (by omega) hbase))

end WorldClock.Digits
