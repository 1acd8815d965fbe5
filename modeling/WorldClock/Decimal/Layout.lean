import WorldClock.Decimal.Shortest

/-!
# Laying out decimals

A `Layout` holds the decisions of an output format about numbers: where positional writing ends,
whether a whole number keeps a point, how exponents are marked. `Layout.numeral` turns a finite
number into the `Numeral` that is written for it.
-/

namespace WorldClock

/-- How an output format writes floating-point numbers. -/
structure Layout where
  /-- Exponents of the leading digit within these bounds are written positionally; without bounds
  every number is. -/
  positional : Option (Int × Int)
  /-- A whole number is written with a point and a zero. -/
  keepPoint : Bool
  /-- An exponent above zero is marked with a plus sign. -/
  plusSign : Bool
  /-- Which of two equally near decimals is taken. -/
  tie : Tie

namespace Layout

def exponentOf (l : Layout) (e : Int) : Exponent :=
  if e < 0 then ⟨.minus, Decimal.digits e.natAbs⟩
  else ⟨if l.plusSign then .plus else .none, Decimal.digits e.natAbs⟩

def positionalParts (s : Scientific) : List Digit × List Digit :=
  if s.exponent < 0 then
    ([0], List.replicate (s.exponent.natAbs - 1) 0 ++ s.digits)
  else
    let before := s.exponent.toNat + 1
    (s.digits.take before ++ List.replicate (before - s.digits.length) 0, s.digits.drop before)

/-- A point with a zero after it, where the format keeps one. -/
def withPoint (l : Layout) (fraction : List Digit) : List Digit :=
  if fraction.isEmpty && l.keepPoint then [0] else fraction

def numeral (l : Layout) (x : Binary64) : Numeral :=
  if x.isZero then ⟨x.negative, [0], l.withPoint [], none⟩
  else
    let s := x.shortest l.tie
    let isPositional := match l.positional with
      | none => true
      | some (least, bound) => decide (least ≤ s.exponent ∧ s.exponent < bound)
    if isPositional then
      let (whole, fraction) := positionalParts s
      ⟨x.negative, whole, l.withPoint fraction, none⟩
    else
      ⟨x.negative, s.digits.take 1, s.digits.drop 1, some (l.exponentOf s.exponent)⟩

/-- The text of any number, the special ones included. -/
def text (l : Layout) (x : Binary64) : String :=
  if x.isNaN then "NaN"
  else if x.isInfinite then if x.negative then "-inf" else "inf"
  else (l.numeral x).text

end Layout

/-- Numbers in messages: every digit before and after the point, never an exponent. -/
def Layout.message : Layout where
  positional := none
  keepPoint := false
  plusSign := false
  tie := .up

/-- Numbers in diagnostic descriptions: a point or an exponent is always there. -/
def Layout.diagnostic : Layout where
  positional := some (-4, 16)
  keepPoint := true
  plusSign := false
  tie := .up

end WorldClock
