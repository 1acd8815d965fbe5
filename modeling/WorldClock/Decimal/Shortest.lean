import WorldClock.Binary64

/-!
# The fewest digits that read back

`Binary64.shortest` picks, for a finite number other than zero, the decimal with the fewest digits
among all those that round to it. The reals that round to a number lie between the halfway points
to its two neighbours, ends included exactly when the last bit of the number is zero. For each
digit count in turn the two neighbours of the number on that decimal grid are tried; of two hits
the nearer one is taken, and `Tie` says what happens to an exact tie.

All comparisons are between natural numbers: magnitudes are scaled by `10 ^ 340 / 2 ^ -1074`, so
that even the least number has more than seventeen digits before the point.
-/

namespace WorldClock

/-- Which of two equally near decimals is taken. -/
inductive Tie where
  | toEven
  | up
deriving DecidableEq, Repr

/-- A decimal `d.ddd * 10 ^ exponent` with its digits, the first of them not zero. -/
structure Scientific where
  digits : List Digit
  exponent : Int
deriving DecidableEq, Repr, Inhabited

namespace Binary64

def decimalScale : Nat := 340

/-- The magnitude of a finite number in units, times `10 ^ 340`. -/
def scaledUnits (x : Binary64) : Nat :=
  x.units * 10 ^ decimalScale

/-- Four times the distance, in scaled units, from a number down to the least real that rounds to
it. Just above a power of two the neighbour below is half as far away as the one above. -/
def gapBelow (x : Binary64) : Nat :=
  (if x.fraction = 0 ∧ 1 < x.exponentField then 1 else 2) * 2 ^ x.shift * 10 ^ decimalScale

/-- Four times the distance, in scaled units, from a number up to the greatest real that rounds to
it. -/
def gapAbove (x : Binary64) : Nat :=
  2 * 2 ^ x.shift * 10 ^ decimalScale

/-- Whether `candidate / 10 ^ 340` rounds to the magnitude of `x`. -/
def readsBack (x : Binary64) (candidate : Nat) : Bool :=
  let it := 4 * candidate * 2 ^ unitPower
  let low := 4 * x.scaledUnits - x.gapBelow
  let high := 4 * x.scaledUnits + x.gapAbove
  if x.mantissa % 2 = 0 then decide (low ≤ it ∧ it ≤ high) else decide (low < it ∧ it < high)

/-- The coefficient of the nearest decimal on the grid with the given step that reads back. -/
def onGrid? (tie : Tie) (x : Binary64) (step : Nat) : Option Nat :=
  let below := x.scaledUnits / 2 ^ unitPower / step
  let twice := 2 * x.scaledUnits
  let middle := (2 * below + 1) * step * 2 ^ unitPower
  match x.readsBack (below * step), x.readsBack ((below + 1) * step) with
  | false, false => none
  | true, false => some below
  | false, true => some (below + 1)
  | true, true =>
    if twice < middle then some below
    else if middle < twice then some (below + 1)
    else match tie with
      | .up => some (below + 1)
      | .toEven => if below % 2 = 0 then some below else some (below + 1)

/-- The decimal with the fewest digits that rounds to a finite number other than zero, the sign
left aside. -/
def shortest (tie : Tie) (x : Binary64) : Scientific :=
  let places := (Decimal.digits (x.scaledUnits / 2 ^ unitPower)).length
  let attempt? (n : Nat) : Option (Nat × Nat) :=
    (x.onGrid? tie (10 ^ (places - n))).map fun c => (c, places - n)
  let (coefficient, power) :=
    ((List.range' 1 17).findSome? attempt?).getD (x.scaledUnits / 2 ^ unitPower, 0)
  let ds := Decimal.digits coefficient
  ⟨Decimal.dropTrailingZeros ds, (power + ds.length : Nat) - (decimalScale : Int) - 1⟩

end Binary64

end WorldClock
